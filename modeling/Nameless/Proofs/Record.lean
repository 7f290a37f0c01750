import Nameless.Print.Basic

/-!
# What printing actions leave on the desk

The actions that are built from texts, gaps and groups add to a desk and never take anything away:
the groups that are open before are open after, also if the action fails. What an action adds is a
`Record`, and `action.Adds desk outcome record` says that the action, done at a desk, has an
outcome and adds just that record.

There is one rule for each way to build an action: in sequence (`Print.Adds.bind`,
`Print.Adds.bind_error`), in a group (`Print.Adds.inGroup`), in a frame (`Print.Adds.framed`), and
as a list (`Print.adds_sequence`). In a group and in a frame the outcome is that of
what is inside, since closing them cannot fail.
-/

namespace Nameless

/-! ## Records -/

/-- What is added to a desk. -/
structure Record where
  /-- The marks that were put on the page. -/
  marks : List Mark := []
  /-- The subterms that were left out. -/
  skips : List Skip := []
  /-- The fresh names that were asked for. -/
  requests : List Name.Query := []

/-- One record after the other. -/
def Record.append (r r' : Record) : Record :=
  ⟨r.marks ++ r'.marks, r.skips ++ r'.skips, r.requests ++ r'.requests⟩

instance : Append Record := ⟨Record.append⟩

/-- Marks come one after the other. -/
@[simp] theorem Record.marks_append (r r' : Record) : (r ++ r').marks = r.marks ++ r'.marks := rfl

/-- Skips come one after the other. -/
@[simp] theorem Record.skips_append (r r' : Record) : (r ++ r').skips = r.skips ++ r'.skips := rfl

/-- Requests come one after the other. -/
@[simp] theorem Record.requests_append (r r' : Record) :
    (r ++ r').requests = r.requests ++ r'.requests := rfl

/-- The marks of a group. -/
def Mark.grouped (name : String) (marks : List Mark) : List Mark :=
  .enter name :: (marks ++ [.leave])

/-- The marks of an unnamed group, in parentheses if its level exceeds what is allowed. -/
def Mark.framed (max : Option Int) (level : Int) (marks : List Mark) : List Mark :=
  if Print.needsParen max level then .opening :: (grouped "" marks ++ [.closing])
  else grouped "" marks

/-- How marks read, one after the other. -/
def Mark.chars (marks : List Mark) : List Char := marks.flatMap fun mark => mark.reading.toList

/-- No marks read as nothing. -/
@[simp] theorem Mark.chars_nil : chars [] = [] := rfl

/-- The first mark is read first. -/
@[simp] theorem Mark.chars_cons (mark : Mark) (marks : List Mark) :
    chars (mark :: marks) = mark.reading.toList ++ chars marks := rfl

/-- Marks are read one after the other. -/
@[simp] theorem Mark.chars_append (marks marks' : List Mark) :
    chars (marks ++ marks') = chars marks ++ chars marks' := List.flatMap_append

/-- The text of a page is how its marks read. -/
theorem Page.toList_text (page : Page) : page.text.toList = Mark.chars page.marks.toList := by
  have hfold (marks : List Mark) (s : String) :
      (marks.foldl (fun s mark => s ++ mark.reading) s).toList = s.toList ++ Mark.chars marks := by
    induction marks generalizing s with
    | nil => simp
    | cons mark marks ih => simp [ih]
  rw [Page.text, ← Array.foldl_toList, hfold]
  rfl

namespace Desk

/-- A desk with a record added to what is on it. -/
def add (desk : Desk) (r : Record) : Desk where
  page := { desk.page with marks := desk.page.marks ++ r.marks.toArray }
  skips := desk.skips ++ r.skips.toArray
  requests := desk.requests ++ r.requests.toArray

/-- A desk on whose page a group has been opened. -/
def entering (desk : Desk) (name : String) : Desk := { desk with page := desk.page.enter name }

/-- Adding nothing changes nothing. -/
@[simp] theorem add_nil (desk : Desk) : desk.add {} = desk := by
  simp [add]

/-- Adding twice is adding all at once. -/
@[simp] theorem add_add (desk : Desk) (r r' : Record) :
    (desk.add r).add r' = desk.add (r ++ r') := by
  simp [add, Array.append_assoc]

/-- What is added keeps the limit. -/
@[simp] theorem limit_add (desk : Desk) (r : Record) :
    (desk.add r).page.limit = desk.page.limit := rfl

/-- What is added keeps the open groups. -/
@[simp] theorem depth_add (desk : Desk) (r : Record) :
    (desk.add r).page.depth = desk.page.depth := rfl

/-- What was asked for with a record added. -/
@[simp] theorem requests_add (desk : Desk) (r : Record) :
    (desk.add r).requests.toList = desk.requests.toList ++ r.requests := by
  simp [add]

/-- The desk inside a frame: the parenthesis, if there is one, stands before the group. -/
def framing (desk : Desk) (max : Option Int) (level : Int) : Desk :=
  if Print.needsParen max level then (desk.add ⟨[.opening], [], []⟩).entering ""
  else desk.entering ""

/-- A frame keeps the limit. -/
@[simp] theorem limit_framing (desk : Desk) (max : Option Int) (level : Int) :
    (desk.framing max level).page.limit = desk.page.limit := by
  unfold framing
  split <;> rfl

/-- A frame asks for nothing. -/
@[simp] theorem requests_framing (desk : Desk) (max : Option Int) (level : Int) :
    (desk.framing max level).requests = desk.requests := by
  unfold framing
  split
  · simp [entering, add]
  · rfl

/-- A frame opens one group. -/
@[simp] theorem depth_framing (desk : Desk) (max : Option Int) (level : Int) :
    (desk.framing max level).page.depth = desk.page.depth + 1 := by
  unfold framing
  split <;> rfl

end Desk

/-! ## Actions -/

namespace Print

/-- Done at a desk, the action has an outcome and adds a record. -/
def Adds {α : Type} (action : Print α) (desk : Desk) (outcome : Except Failure α) (r : Record) :
    Prop :=
  action.runAt desk = (outcome, desk.add r)

/-- After an action that succeeds, the next one goes on from where it left the desk. -/
theorem runAt_bind_ok {α β : Type} {action : Print α} {desk desk' : Desk} {a : α}
    (h : action.runAt desk = (.ok a, desk')) (f : α → Print β) :
    (action >>= f).runAt desk = (f a).runAt desk' := by
  unfold runAt at h ⊢
  rw [ExceptT.run_bind, StateT.run_bind, h]
  rfl

/-- An action that fails is the last one. -/
theorem runAt_bind_error {α β : Type} {action : Print α} {desk desk' : Desk} {x : Failure}
    (h : action.runAt desk = (.error x, desk')) (f : α → Print β) :
    (action >>= f).runAt desk = (.error x, desk') := by
  unfold runAt at h ⊢
  rw [ExceptT.run_bind, StateT.run_bind, h]
  rfl

/-- If the closing action succeeds, the outcome is that of the body. -/
theorem runAt_ensuring {α : Type} {body : Print α} {final : Print Unit}
    {desk desk' desk'' : Desk} {outcome : Except Failure α}
    (hbody : body.runAt desk = (outcome, desk')) (hfinal : final.runAt desk' = (.ok (), desk'')) :
    (ensuring body final).runAt desk = (outcome, desk'') := by
  unfold runAt ensuring at *
  change StateT.run (ExceptT.run body >>= _) desk = _
  rw [StateT.run_bind, hbody]
  change StateT.run (ExceptT.run final >>= _) desk' = _
  rw [StateT.run_bind, hfinal]
  rfl

/-- If the closing action fails, its failure is the outcome. -/
theorem runAt_ensuring_error {α : Type} {body : Print α} {final : Print Unit}
    {desk desk' desk'' : Desk} {outcome : Except Failure α} {x : Failure}
    (hbody : body.runAt desk = (outcome, desk')) (hfinal : final.runAt desk' = (.error x, desk'')) :
    (ensuring body final).runAt desk = (.error x, desk'') := by
  unfold runAt ensuring at *
  change StateT.run (ExceptT.run body >>= _) desk = _
  rw [StateT.run_bind, hbody]
  change StateT.run (ExceptT.run final >>= _) desk' = _
  rw [StateT.run_bind, hfinal]
  rfl

/-- What is done apart is done on a blank page, which is put away for the page at hand in any
case. -/
theorem runAt_apart {limit : Int} {body : Print Unit} {desk desk' : Desk}
    {outcome : Except Failure Unit}
    (h : body.runAt { desk with page := .blank limit } = (outcome, desk')) :
    (apart limit body).runAt desk =
      (outcome.map fun _ => desk'.page.text, { desk' with page := desk.page }) := by
  have hbody : (do body; return (← page).text : Print String).runAt
      { desk with page := .blank limit } = (outcome.map fun _ => desk'.page.text, desk') := by
    cases outcome with
    | error x => rw [runAt_bind_error h]; rfl
    | ok u => rw [runAt_bind_ok h]; rfl
  have hback : (onPage fun _ => desk.page).runAt desk' =
      (.ok (), { desk' with page := desk.page }) := rfl
  exact runAt_ensuring hbody hback

/-- An answer adds nothing. -/
theorem adds_pure {α : Type} (a : α) (desk : Desk) : (pure a : Print α).Adds desk (.ok a) {} := by
  rw [Adds, Desk.add_nil]
  rfl

/-- A failure adds nothing. -/
theorem adds_throw {α : Type} (x : Failure) (desk : Desk) :
    (throw x : Print α).Adds desk (.error x) {} := by
  rw [Adds, Desk.add_nil]
  rfl

/-- A mark that opens and closes no group is added as it is. -/
theorem adds_note (mark : Mark) (henter : ∀ name, mark ≠ .enter name) (hleave : mark ≠ .leave)
    (desk : Desk) : (note mark).Adds desk (.ok ()) ⟨[mark], [], []⟩ := by
  show (Except.ok (), { desk with page := desk.page.note mark }) = _
  cases mark with
  | enter name => exact absurd rfl (henter name)
  | leave => exact absurd rfl hleave
  | _ => simp [Desk.add, Page.note]

/-- Printing a text puts it on the page. -/
theorem adds_text (s : String) (desk : Desk) : (text s).Adds desk (.ok ()) ⟨[.text s], [], []⟩ :=
  adds_note (.text s) (by simp) (by simp) desk

/-- A break hint is put on the page. -/
theorem adds_gap (desk : Desk) : gap.Adds desk (.ok ()) ⟨[.gap], [], []⟩ :=
  adds_note .gap (by simp) (by simp) desk

/-- A subterm that is left out is noted with the number of open groups. -/
theorem adds_skip (kind : Term.Kind) (desk : Desk) :
    (skip kind).Adds desk (.ok ()) ⟨[], [⟨desk.page.depth, kind⟩], []⟩ := by
  simp [Adds, Desk.add]
  rfl

/-- An action that succeeds, and the next one. -/
theorem Adds.bind {α β : Type} {action : Print α} {desk : Desk} {a : α} {r : Record}
    (h : action.Adds desk (.ok a) r) {f : α → Print β} {outcome : Except Failure β} {r' : Record}
    (hf : (f a).Adds (desk.add r) outcome r') : (action >>= f).Adds desk outcome (r ++ r') := by
  rw [Adds, runAt_bind_ok h, hf, Desk.add_add]

/-- An action that succeeds without a result, and the next one. -/
theorem Adds.next {β : Type} {action : Print Unit} {desk : Desk} {r : Record}
    (h : action.Adds desk (.ok ()) r) {next : Print β} {outcome : Except Failure β} {r' : Record}
    (hnext : next.Adds (desk.add r) outcome r') :
    (do action; next : Print β).Adds desk outcome (r ++ r') :=
  h.bind (f := fun _ => next) hnext

/-- Nothing is done after an action that fails. -/
theorem Adds.bind_error {α β : Type} {action : Print α} {desk : Desk} {x : Failure} {r : Record}
    (h : action.Adds desk (.error x) r) (f : α → Print β) :
    (action >>= f).Adds desk (.error x) r :=
  runAt_bind_error h f

/-- A group has the outcome of what is inside it, and its marks around those. -/
theorem Adds.inGroup {α : Type} {body : Print α} {name : String} {desk : Desk}
    {outcome : Except Failure α} {r : Record} (h : body.Adds (desk.entering name) outcome r) :
    (inGroup name body).Adds desk outcome { r with marks := Mark.grouped name r.marks } := by
  have henter : (enter name).runAt desk = (.ok (), desk.entering name) := rfl
  have hleave : leave.runAt ((desk.entering name).add r) =
      (.ok (), desk.add { r with marks := Mark.grouped name r.marks }) := by
    -- the group that is left is the one that was entered
    change (Except.ok (), { (desk.entering name).add r with
      page := ((desk.entering name).add r).page.leave }) = _
    simp [Desk.add, Desk.entering, Page.enter, Page.leave, Page.note, Mark.grouped]
  rw [Adds, Print.inGroup, runAt_bind_ok henter]
  exact runAt_ensuring h hleave

/-- A frame has the outcome of what is inside it, and its marks around those. -/
theorem Adds.framed {α : Type} {body : Print α} {max : Option Int} {level : Int} {desk : Desk}
    {outcome : Except Failure α} {r : Record} (h : body.Adds (desk.framing max level) outcome r) :
    (framed max level body).Adds desk outcome
      { r with marks := Mark.framed max level r.marks } := by
  unfold Desk.framing at h
  unfold Print.framed Mark.framed
  by_cases hparen : needsParen max level = true
  · rw [if_pos hparen] at h
    rw [if_pos hparen, if_pos hparen]
    have hopen := adds_note .opening (by simp) (by simp) desk
    have hclose := adds_note .closing (by simp) (by simp)
      ((desk.add ⟨[.opening], [], []⟩).add { r with marks := Mark.grouped "" r.marks })
    rw [Adds, enclosed, runAt_bind_ok hopen, runAt_ensuring h.inGroup hclose]
    simp [Desk.add]
  · rw [if_neg hparen] at h
    rw [if_neg hparen, if_neg hparen]
    exact h.inGroup

/-- An identifier is put on the page in a frame of its own. -/
theorem adds_ident (name : String) (desk : Desk) :
    (ident name).Adds desk (.ok ()) ⟨Mark.framed none 0 [.text name], [], []⟩ :=
  Adds.framed (r := ⟨_, [], []⟩) (adds_text name _)

end Print

/-- The marks of one thing after the other, each in a group with what separates it from the
next. -/
def Mark.sequence (separator : String) : List (List Mark) → List Mark
  | [] => []
  | [last] => framed none 0 last
  | item :: next :: rest =>
    framed none 0 (item ++ [.text separator, .gap]) ++ sequence separator (next :: rest)

/-- If every item succeeds and adds its own marks wherever it stands, so does the sequence. -/
theorem Print.adds_sequence {ι : Type} {item : ι → Print Unit} {marks : ι → List Mark}
    (h : ∀ i desk, (item i).Adds desk (.ok ()) ⟨marks i, [], []⟩) (separator : String)
    (items : List ι) (desk : Desk) :
    (sequence separator (items.map item)).Adds desk (.ok ())
      ⟨Mark.sequence separator (items.map marks), [], []⟩ := by
  induction items generalizing desk with
  | nil => exact adds_pure () desk
  | cons i rest ih =>
    cases rest with
    | nil => exact Adds.framed (r := ⟨_, [], []⟩) (h i _)
    | cons next rest =>
      have hitem (desk' : Desk) : (do item i; text separator; gap : Print Unit).Adds desk' (.ok ())
          ⟨marks i ++ [.text separator, .gap], [], []⟩ :=
        (h i desk').next ((adds_text separator _).next (adds_gap _))
      have hfirst : (framed none 0 (do item i; text separator; gap)).Adds desk (.ok ())
          ⟨Mark.framed none 0 (marks i ++ [.text separator, .gap]), [], []⟩ :=
        Adds.framed (r := ⟨_, [], []⟩) (hitem _)
      exact hfirst.next (ih _)

end Nameless
