import Nameless.Proofs.Marks

/-!
# Brackets are closed on every way out

Whatever fails first, and however deep inside, groups and parentheses are closed on the way out.

Two properties of the marks that an action takes down say what this means. The parentheses of frames
among them are `Mark.Nested`: they come in pairs, one inside the other or one after the other. And a
page `Page.Keeps` its groups: they are open throughout, no group is closed that is not there, and in
the end the same groups are open.

* **What every way to print preserves holds of all terms and scripts** (`Page.Closed`,
  `Page.Closed.script`). If groups are also opened and closed by hand, it has to hold of that too.
  The inductions over terms and scripts are made here, once.
* **Nesting survives everything** (`Mark.closed_nested`), also groups that are opened and closed by
  hand, since a frame puts its closing parenthesis even where its group cannot be closed.
* **Groups are kept by all that is not done by hand** (`Page.closed_keeps`).
* **So every script closes its brackets** (`Printer.script_closes_brackets`).
-/

namespace Nameless

/-! ## Parentheses in pairs -/

/-- The parentheses of frames come in pairs, one inside the other or one after the other. -/
inductive Mark.Nested : List Mark → Prop where
  /-- Nothing is nested. -/
  | nil : Nested []
  /-- Any other mark may stand between the parentheses. -/
  | cons {mark : Mark} {rest : List Mark} (hopening : mark ≠ .opening) (hclosing : mark ≠ .closing)
      (hrest : Nested rest) : Nested (mark :: rest)
  /-- A pair of parentheses, with what is between them and what comes after them. -/
  | pair {inside rest : List Mark} (hinside : Nested inside) (hrest : Nested rest) :
      Nested (.opening :: (inside ++ .closing :: rest))

namespace Mark

/-- A mark that is no parenthesis of a frame. -/
theorem nested_single {mark : Mark} (hopening : mark ≠ .opening) (hclosing : mark ≠ .closing) :
    Nested [mark] :=
  .cons hopening hclosing .nil

/-- One nested list after the other is nested. -/
theorem Nested.append {marks marks' : List Mark} (h : Nested marks) (h' : Nested marks') :
    Nested (marks ++ marks') := by
  induction h with
  | nil => exact h'
  | cons hopening hclosing _ ih => exact .cons hopening hclosing ih
  | pair hinside _ _ ih =>
    rw [List.cons_append, List.append_assoc, List.cons_append]
    exact .pair hinside ih

/-- As many parentheses are opened as closed. -/
theorem Nested.count_eq {marks : List Mark} (h : Nested marks) :
    marks.count .opening = marks.count .closing := by
  induction h with
  | nil => rfl
  | cons hopening hclosing _ ih =>
    rw [List.count_cons_of_ne hopening, List.count_cons_of_ne hclosing, ih]
  | pair _ _ ihinside ihrest =>
    simp [ihinside, ihrest]
    omega

/-- What comes first in two lists of marks is some of the first list, or all of it and some of the
second. -/
theorem prefix_or_rest {marks marks' before : List Mark} (h : before <+: marks ++ marks') :
    before <+: marks ∨ ∃ rest, rest <+: marks' ∧ before = marks ++ rest := by
  rcases List.prefix_or_prefix_of_prefix h (List.prefix_append marks marks') with hin | hout
  · exact .inl hin
  · obtain ⟨rest, rfl⟩ := hout
    exact .inr ⟨rest, (List.prefix_append_right_inj marks).1 h, rfl⟩

end Mark

/-! ## Groups that stay open -/

/-- When these marks are taken down on a page, the groups that are open before stay open throughout,
no group is closed that is not there, and in the end the same groups are open. -/
structure Page.Keeps (page : Page) (marks : List Mark) : Prop where
  /-- In the end the same groups are open. -/
  groups : (page.follow marks).groups = page.groups
  /-- No group is closed that is not there. -/
  not_refused : .refused ∉ marks
  /-- The groups stay open throughout. -/
  throughout : ∀ before, before <+: marks → page.groups <:+ (page.follow before).groups

namespace Page

/-- Where nothing is taken down, the groups are kept. -/
theorem keeps_nil (page : Page) : page.Keeps [] where
  groups := rfl
  not_refused := List.not_mem_nil
  throughout := by
    intro before hbefore
    rw [List.prefix_nil.1 hbefore]
    exact List.suffix_refl _

/-- A mark that opens and closes no group keeps the groups. -/
theorem keeps_single {page : Page} {mark : Mark} (hmark : mark ≠ .refused)
    (hgroups : (page.note mark).groups = page.groups) : page.Keeps [mark] where
  groups := hgroups
  not_refused := by
    intro hmem
    exact hmark (List.mem_singleton.1 hmem).symm
  throughout := by
    intro before hbefore
    rcases List.prefix_cons_iff.1 hbefore with rfl | ⟨rest, rfl, hrest⟩
    · exact List.suffix_refl _
    · rw [List.prefix_nil.1 hrest]
      exact ⟨[], hgroups.symm⟩

/-- What keeps the groups, and then once more. -/
theorem Keeps.append {page : Page} {marks marks' : List Mark} (h : page.Keeps marks)
    (h' : (page.follow marks).Keeps marks') : page.Keeps (marks ++ marks') where
  groups := by rw [follow_append, h'.groups, h.groups]
  not_refused := by
    intro hmem
    rcases List.mem_append.1 hmem with hmem | hmem
    · exact h.not_refused hmem
    · exact h'.not_refused hmem
  throughout := by
    intro before hbefore
    rcases Mark.prefix_or_rest hbefore with hin | ⟨rest, hrest, rfl⟩
    · exact h.throughout before hin
    · -- the second part starts with the same groups as the first
      have hgroups := h'.throughout rest hrest
      rwa [h.groups, ← follow_append] at hgroups

/-- A group that is kept by what is in it is there to be closed. -/
theorem Keeps.closing_eq {page : Page} {name : String} {marks : List Mark}
    (h : (page.enter name).Keeps marks) : ((page.enter name).follow marks).closing = .leave :=
  closing_eq_leave h.groups

/-- A group is one more group to be kept, until it is closed. -/
theorem Keeps.grouped {page : Page} {name : String} {marks : List Mark}
    (h : (page.enter name).Keeps marks) :
    page.Keeps (.enter name :: (marks ++ [((page.enter name).follow marks).closing])) where
  groups := by
    rw [h.closing_eq, follow_cons, follow_append]
    show ((page.enter name).follow marks).groups.tail = page.groups
    rw [h.groups]
    rfl
  not_refused := by
    rw [h.closing_eq]
    simp [h.not_refused]
  throughout := by
    intro before hbefore
    rw [h.closing_eq] at hbefore
    rcases List.prefix_cons_iff.1 hbefore with rfl | ⟨rest, rfl, hrest⟩
    · exact List.suffix_refl _
    rw [follow_cons]
    show page.groups <:+ ((page.enter name).follow rest).groups
    rcases List.prefix_concat_iff.1 hrest with rfl | hinside
    · rw [follow_append]
      show page.groups <:+ ((page.enter name).follow marks).groups.tail
      rw [h.groups]
      exact List.suffix_refl _
    · have hentered : page.groups <:+ (page.enter name).groups := List.suffix_cons name page.groups
      exact hentered.trans (h.throughout rest hinside)

/-- Parentheses around what keeps the groups. -/
theorem Keeps.enclosed {page : Page} {marks : List Mark} (h : (page.note .opening).Keeps marks) :
    page.Keeps (.opening :: (marks ++ [.closing])) :=
  (keeps_single (by decide) rfl : page.Keeps [.opening]).append
    (h.append (keeps_single (by decide) rfl))

end Page

/-! ## What every way to print preserves -/

mutual

/-- Whether groups are never opened or closed by hand. What happens on a page of its own does not
count. -/
def Step.isStructured : Step → Bool
  | .enter _ | .leave => false
  | .group _ body | .framed _ _ body => areStructured body
  | .sequence _ items => allStructured items
  | _ => true

/-- Whether all steps are structured. -/
def Step.areStructured : List Step → Bool
  | [] => true
  | s :: rest => s.isStructured && areStructured rest

/-- Whether the steps of all items are structured. -/
def Step.allStructured : List (List Step) → Bool
  | [] => true
  | item :: rest => areStructured item && allStructured rest

end

/-- Wherever the action is done, the marks that it takes down stand in the relation `R` to the page
that it finds. -/
def Print.Always {α : Type} (action : Print α) (R : Page → List Mark → Prop) : Prop :=
  ∀ desk, ∃ marks, action.Takes desk marks ∧ R desk.page marks

namespace Print.Always

variable {α : Type} {R R' : Page → List Mark → Prop}

/-- Taking down a mark. -/
theorem note {mark : Mark} (h : ∀ page, R page [mark]) : (Print.note mark).Always R :=
  fun desk => ⟨[mark], takes_note mark desk, h desk.page⟩

/-- A group around an action. -/
theorem inGroup {body : Print α} (hbody : body.Always R) {name : String}
    (h : ∀ {page marks}, R (page.enter name) marks →
      R' page (.enter name :: (marks ++ [((page.enter name).follow marks).closing]))) :
    (inGroup name body).Always R' := by
  intro desk
  obtain ⟨marks, htakes, hmarks⟩ := hbody (desk.entering name)
  exact ⟨_, htakes.inGroup, h hmarks⟩

/-- Parentheses around an action. -/
theorem enclosed {body : Print α} (hbody : body.Always R)
    (h : ∀ {page marks}, R (page.note .opening) marks →
      R' page (.opening :: (marks ++ [.closing]))) :
    (enclosed body).Always R' := by
  intro desk
  obtain ⟨marks, htakes, hmarks⟩ := hbody { desk with page := desk.page.note .opening }
  exact ⟨_, htakes.enclosed, h hmarks⟩

end Print.Always

/-- A relation between pages and the marks that are taken down on them is chained if it may be put
together from one part after the other. -/
structure Page.Chained (R : Page → List Mark → Prop) : Prop where
  nil (page : Page) : R page []
  append {page : Page} {marks marks' : List Mark} (h : R page marks)
    (h' : R (page.follow marks) marks') : R page (marks ++ marks')

/-- A relation is closed if every way to print preserves it, apart from the groups that are opened
and closed by hand. -/
structure Page.Closed (R : Page → List Mark → Prop) : Prop extends Page.Chained R where
  text (s : String) (page : Page) : R page [.text s]
  gap (page : Page) : R page [.gap]
  newline (page : Page) : R page [.newline]
  grouped {name : String} {page : Page} {marks : List Mark} (h : R (page.enter name) marks) :
    R page (.enter name :: (marks ++ [((page.enter name).follow marks).closing]))
  enclosed {page : Page} {marks : List Mark} (h : R (page.note .opening) marks) :
    R page (.opening :: (marks ++ [.closing]))

/-- The relation holds of the groups that are opened and closed by hand. -/
structure Page.ByHand (R : Page → List Mark → Prop) : Prop where
  enter (name : String) (page : Page) : R page [.enter name]
  leave (page : Page) : R page [page.closing]

namespace Page.Chained

open Print

variable {α β : Type} {R R' : Page → List Mark → Prop} (h : Chained R)
include h

/-- An action that does not touch the page. -/
theorem untouched {action : Print α} (haction : ∀ desk, action.Takes desk []) : action.Always R :=
  fun desk => ⟨[], haction desk, h.nil desk.page⟩

/-- One action, and then another, whatever the first one results in. -/
theorem bind {action : Print α} (haction : action.Always R) {f : α → Print β}
    (hf : ∀ a, (f a).Always R) : (action >>= f).Always R := by
  intro desk
  obtain ⟨marks, htakes, hmarks⟩ := haction desk
  cases hrun : action.runAt desk with
  | mk outcome after =>
    cases outcome with
    | error x => exact ⟨marks, htakes.bind_error hrun f, hmarks⟩
    | ok a =>
      obtain ⟨marks', htakes', hmarks'⟩ := hf a after
      rw [htakes.page_eq hrun] at hmarks'
      exact ⟨marks ++ marks', htakes.bind hrun htakes', h.append hmarks hmarks'⟩

/-- What an action results in makes no difference to its marks. -/
theorem answering {action : Print α} (haction : action.Always R) (f : α → β) :
    (action >>= fun a => pure (f a)).Always R :=
  h.bind haction fun _ => h.untouched fun _ => rfl

/-- A sequence of actions, each with what separates it from the next in a group of its own. -/
theorem sequence {separator : String} {items : List (Print Unit)}
    (hitems : ∀ item ∈ items, item.Always R')
    (hgap : ∀ item : Print Unit, item.Always R' →
      (do item; Print.text separator; Print.gap : Print Unit).Always R')
    (hframed : ∀ item : Print Unit, item.Always R' → (framed none 0 item).Always R) :
    (sequence separator items).Always R := by
  fun_induction Print.sequence separator items with
  | case1 => exact h.untouched fun _ => rfl
  | case2 last => exact hframed last (hitems last List.mem_cons_self)
  | case3 item next rest ih =>
    have hitem := hitems item List.mem_cons_self
    have hrest := ih fun other hmem => hitems other (List.mem_cons_of_mem item hmem)
    exact h.bind (hframed _ (hgap item hitem)) fun _ => hrest

end Page.Chained

namespace Page.Closed

open Print

variable {α β : Type} {R : Page → List Mark → Prop}

section

variable (h : Closed R)
include h

/-- A text. -/
theorem printText (s : String) : (Print.text s).Always R := .note (h.text s)

/-- A break hint. -/
theorem printGap : Print.gap.Always R := .note h.gap

/-- A group around an action. -/
theorem inGroup (name : String) {body : Print α} (hbody : body.Always R) :
    (inGroup name body).Always R :=
  hbody.inGroup h.grouped

/-- A frame around an action. -/
theorem framed (max : Option Int) (level : Int) {body : Print α} (hbody : body.Always R) :
    (framed max level body).Always R := by
  unfold Print.framed
  split
  · exact (h.inGroup "" hbody).enclosed h.enclosed
  · exact h.inGroup "" hbody

/-- An identifier. -/
theorem ident (name : String) : (ident name).Always R := h.framed none 0 (h.printText name)

/-- A sequence of actions. -/
theorem sequence (separator : String) {items : List (Print Unit)}
    (hitems : ∀ item ∈ items, item.Always R) : (sequence separator items).Always R :=
  h.toChained.sequence hitems
    (fun _ hitem => h.bind hitem fun _ => h.bind (h.printText separator) fun _ => h.printGap)
    fun _ hitem => h.framed none 0 hitem

/-- On a full page, nothing is taken down. -/
theorem unlessFull (kind : Term.Kind) {body : Print Unit} (hbody : body.Always R) :
    (do if (← page).isFull then skip kind else body : Print Unit).Always R := by
  intro desk
  show ∃ marks, (if desk.page.isFull then skip kind else body).Takes desk marks ∧ _
  split
  · exact ⟨[], rfl, h.nil desk.page⟩
  · exact hbody desk

/-- The heading of a binder list. -/
theorem heading (p : Printer) (names : List String) : (p.heading names).Always R := by
  have hnames : ∀ item ∈ names.map Print.ident, item.Always R := by
    intro item hitem
    obtain ⟨name, -, rfl⟩ := List.mem_map.1 hitem
    exact h.ident name
  refine h.bind (h.printText _) fun _ => h.bind (h.sequence "" hnames) fun _ => ?_
  exact h.bind (h.printText _) fun _ => h.printGap

/-- The choice of the names for a binder list. -/
theorem chooseNames (p : Printer) (context : List String) (body : Term) (hints : List String) :
    (p.chooseNames context body [] hints).Always R :=
  h.untouched (p.takes_chooseNames context body hints)

/-- A binder list, and what is below it. -/
theorem binders (p : Printer) (context hints : List String) (body : Term)
    {inside : List String → Print Unit} (hinside : ∀ context, (inside context).Always R) :
    (p.binders context hints body inside).Always R := by
  refine h.bind (h.chooseNames p context body hints.reverse) fun chosen => ?_
  exact h.framed none Level.lam (h.bind (h.heading p _) fun _ => hinside _)

/-- **A closed relation holds of every term.** -/
theorem term (p : Printer) (context : List String) : (e : Term) → (max : Option Int) →
    (p.term context e max).Always R
  | .var loc index, max => by
    rw [Printer.term]
    refine h.unlessFull _ ?_
    cases nameAt? context index with
    | some name => exact h.framed max 0 (h.printText name)
    | none => exact h.untouched fun _ => rfl
  | .pending loc s body, max => by
    rw [Printer.term]
    refine h.unlessFull _ ?_
    cases hforce : body.force s with
    | error x => exact h.untouched fun _ => rfl
    | ok r => exact term p context r max
  | .lam loc hint body, max => by
    rw [Printer.term]
    refine h.unlessFull _ (h.framed max Level.lam ?_)
    cases hrun : body.run with
    | error x => exact h.untouched fun _ => rfl
    | ok found =>
      obtain ⟨hints, inner⟩ := found
      exact h.binders p context (hint :: hints) inner fun context => term p context inner none
  | .app loc fn arg, max => by
    rw [Printer.term]
    refine h.unlessFull _ (h.framed max Level.app ?_)
    refine h.bind (term p context fn (some Level.app)) fun _ => h.bind h.printGap fun _ => ?_
    exact term p context arg (some 0)
  | .unknown loc, max => by
    rw [Printer.term]
    exact h.unlessFull _ (h.untouched fun _ => rfl)
termination_by e => e.weight
decreasing_by
  · exact Term.weight_force_lt hforce loc
  · exact Term.weight_run_lt hrun loc hint
  · exact Term.weight_fn_lt loc fn arg
  · exact Term.weight_arg_lt loc fn arg

/-- An abstraction that is printed whatever the limit on groups. -/
theorem lambda (p : Printer) (context : List String) (hint : String) (body : Term) :
    (p.lambda context hint body).Always R := by
  unfold Printer.lambda
  cases body.run with
  | error x => exact h.untouched fun _ => rfl
  | ok found =>
    exact h.binders p context (hint :: found.1) found.2 fun context => h.term p context found.2 none

end

mutual

/-- A closed relation holds of every structured step, and of every other one if it holds of what is
done by hand. -/
theorem step (h : Closed R) (p : Printer) : (s : Step) →
    s.isStructured = true ∨ ByHand R → (p.step s).Always R
  | .text s, _ => h.answering (h.printText s) _
  | .gap, _ => h.answering h.printGap _
  | .newline, _ => h.answering (.note h.newline) _
  | .enter name, hs => by
    rcases hs with hs | hs
    · cases hs
    · exact h.answering (.note (hs.enter name)) _
  | .leave, hs => by
    rcases hs with hs | hs
    · cases hs
    · have hleave : Print.leave.Always R := fun desk =>
        ⟨_, takes_leave desk, hs.leave desk.page⟩
      exact h.answering hleave _
  | .group name body, hs => h.answering (h.inGroup name (script h p body hs)) _
  | .framed max level body, hs => h.answering (h.framed max level (script h p body hs)) _
  | .sequence separator steps, hs => h.answering (h.sequence separator (items h p steps hs)) _
  | .ident name, _ => h.answering (h.ident name) _
  | .lambda context hint body, _ => h.answering (h.lambda p context hint body) _
  | .term context e max, _ => h.answering (h.term p context e max) _
  | .fail _, _ | .depth, _ | .isFull, _ | .value, _ => h.untouched fun _ => rfl
  | .formatSequence _ _, _ => h.answering (h.untouched (takes_apart _ _)) _
  | .formatIdent _, _ => h.answering (h.untouched (takes_apart _ _)) _
  | .formatTerm _ _ _, _ => h.answering (h.untouched (takes_apart _ _)) _

/-- **A closed relation holds of every structured script**, and of every other one if it holds of
what is done by hand. -/
theorem script (h : Closed R) (p : Printer) : (steps : List Step) →
    Step.areStructured steps = true ∨ ByHand R → (p.script steps).Always R
  | [], _ => h.untouched fun _ => rfl
  | s :: rest, hs => by
    have hboth : (s.isStructured = true ∧ Step.areStructured rest = true) ∨ ByHand R := by
      rwa [Step.areStructured, Bool.and_eq_true] at hs
    exact h.bind (step h p s (hboth.imp_left And.left)) fun _ =>
      script h p rest (hboth.imp_left And.right)

/-- What holds of every script holds of every item of a sequence. -/
theorem items (h : Closed R) (p : Printer) : (steps : List (List Step)) →
    Step.allStructured steps = true ∨ ByHand R → ∀ item ∈ p.items steps, item.Always R
  | [], _, _, hmem => absurd hmem List.not_mem_nil
  | first :: rest, hs, item, hmem => by
    have hboth : (Step.areStructured first = true ∧ Step.allStructured rest = true) ∨
        ByHand R := by
      rwa [Step.allStructured, Bool.and_eq_true] at hs
    rcases List.mem_cons.1 hmem with heq | hmem
    · rw [heq]
      exact script h p first (hboth.imp_left And.left)
    · exact items h p rest (hboth.imp_left And.right) item hmem

end

end Page.Closed

/-! ## The two properties -/

/-- **Nesting is preserved.** A group nests whether or not it can be closed. -/
theorem Mark.closed_nested : Page.Closed fun _ marks => Nested marks where
  nil _ := .nil
  text _ _ := nested_single (by simp) (by simp)
  gap _ := nested_single (by decide) (by decide)
  newline _ := nested_single (by decide) (by decide)
  append := .append
  grouped h := by
    refine .cons (by simp) (by simp) (h.append (nested_single ?_ ?_))
    · unfold Page.closing
      split <;> decide
    · unfold Page.closing
      split <;> decide
  enclosed h := .pair h .nil

/-- **Nesting survives what is done by hand.** Closing a group concerns no parenthesis, also where
it is refused. -/
theorem Mark.byHand_nested : Page.ByHand fun _ marks => Nested marks where
  enter _ _ := nested_single (by simp) (by simp)
  leave page := by
    unfold Page.closing
    split
    · exact nested_single (by decide) (by decide)
    · exact nested_single (by decide) (by decide)

/-- **Keeping the groups is preserved.** If the body of a group keeps the groups, its own group is
still there to be closed. -/
theorem Page.closed_keeps : Page.Closed Page.Keeps where
  nil := keeps_nil
  text _ _ := keeps_single (by simp) rfl
  gap _ := keeps_single (by decide) rfl
  newline _ := keeps_single (by decide) rfl
  append := .append
  grouped := .grouped
  enclosed := .enclosed

namespace Printer

/-- **Every script closes its brackets**, from any page, with any printer, and whatever fails first.
All that it does to the page is to take down some marks, and there is only one list of marks that
makes the one page of the other. Among them, the parentheses of frames come in pairs. The text that
was on the page before stays at its beginning. And if the script opens and closes no group by hand,
then the groups that were open before are open after, no group is closed that is not there, and
those groups stay open throughout: they are the outermost ones after every part of what is taken
down. -/
theorem script_closes_brackets (p : Printer) (steps : List Step) (desk : Desk) :
    let after := ((p.script steps).runAt desk).2.page
    ∃ marks, after = desk.page.follow marks ∧
      (Mark.Nested marks ∧ marks.count .opening = marks.count .closing) ∧
      (∃ added, after.text = desk.page.text ++ added) ∧
      (Step.areStructured steps = true →
        after.groups = desk.page.groups ∧ .refused ∉ marks ∧
          ∀ before, before <+: marks →
            desk.page.groups <:+ (desk.page.follow before).groups) := by
  intro after
  obtain ⟨marks, htakes, hnested⟩ :=
    Mark.closed_nested.script p steps (.inr Mark.byHand_nested) desk
  have hafter : after = desk.page.follow marks := htakes
  refine ⟨marks, hafter, ⟨hnested, hnested.count_eq⟩, ?_, ?_⟩
  · rw [hafter]
    exact desk.page.exists_text_follow marks
  · intro hstructured
    obtain ⟨kept, htakes', hkeeps⟩ := Page.closed_keeps.script p steps (.inl hstructured) desk
    rw [htakes'.unique htakes] at hkeeps
    refine ⟨?_, hkeeps.not_refused, hkeeps.throughout⟩
    rw [hafter, hkeeps.groups]

/-- A fresh name is given only once, and one was asked for before. So an abstraction in a
parenthesis and two groups cannot be printed. What was opened is all closed, and the group around it
stays open. -/
theorem script_closes_brackets_exhausted :
    let x : Failure := .fault (.custom .general "no more names" none)
    let p : Printer :=
      { freshen := fun asked name _ => if asked.isEmpty then .ok name else .error x }
    let steps : List Step :=
      [.framed (some 0) 1 [.group "g" [.text "(", .lambda [] "x" (.var none 0), .text "unseen"]]]
    let desk : Desk :=
      { page := { limit := 200, groups := ["outer"] }, requests := #[("x", [])] }
    let marks : List Mark :=
      [.opening, .enter "", .enter "g", .text "(", .leave, .leave, .closing]
    let done := (p.script steps).runAt desk
    Step.areStructured steps = true ∧ done.1 = .error x ∧ done.2.page = desk.page.follow marks ∧
      done.2.page.groups = ["outer"] ∧ .refused ∉ marks ∧
      ∀ before, before <+: marks → ["outer"] <:+ (desk.page.follow before).groups := by
  intro x p steps desk marks done
  have hrun : (Term.var none 0).run = .ok ([], .var none 0) := by rw [Term.run_eq]; rfl
  have hused : (Term.var none 0).occurs 0 = .ok true := by
    rw [Term.occurs, Term.search_cons]
    rfl
  have hchoose : p.chooseNames [] (.var none 0) [] ["x"] = (do
      let name ← p.fresh "x" []
      return [name]) := by
    rw [chooseNames, List.length_nil, Int.natCast_zero, hused]
    rfl
  have hlambda : p.lambda [] "x" (.var none 0) = (do
      let name ← p.fresh "x" []
      Print.framed none Level.lam do
        p.heading [name]
        p.term [name] (.var none 0) none) := by
    unfold lambda
    rw [hrun]
    show (p.chooseNames [] (.var none 0) [] ["x"] >>= _) = _
    rw [hchoose, bind_assoc]
    rfl
  have hdone : done =
      (.error x, ⟨desk.page.follow marks, #[], #[("x", []), ("x", [])]⟩) := by
    simp only [done, steps, script, step, hlambda]
    rfl
  obtain ⟨marks', htakes, -, -, hclosed⟩ := p.script_closes_brackets steps desk
  have hstructured : Step.areStructured steps = true := by decide
  have hpage : done.2.page = desk.page.follow marks := by rw [hdone]
  obtain rfl : marks' = marks := Page.follow_inj (htakes.symm.trans hpage)
  exact ⟨hstructured, by rw [hdone], hpage, hclosed hstructured⟩

end Printer

end Nameless
