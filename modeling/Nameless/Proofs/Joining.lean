import Nameless.Proofs.Bracketing

/-!
# Items are joined

A sequence is done item by item, each item in a group of its own. Between two items stand the
separator and a break hint, in the group of the first of the two. The items are any actions that
keep the groups that they find, and each of them may fail.

What an action puts on the page is told by its `Emission`s: each text with the number of groups that
are open at the time.

* **An action is tidy** (`Print.Tidy`) if it does nothing to the page but what can be done to a
  page, and leaves the groups as it found them, also where it fails. All structured scripts are
  tidy (`Printer.script_tidy`).
* **Items take turns** (`Print.Turns`) until one fails or none is left, each on the desk that the
  items before it leave.
* **A sequence is a join** (`Print.sequence_joins`): what it emits is what the items emit in their
  turns, joined by the separator and a break hint. The item that fails is the last one, and nothing
  comes after it.
-/

namespace Nameless

/-- Joined emissions read as joined texts. -/
theorem Emission.reading_intercalate (between : List Emission) (parts : List (List Emission)) :
    reading (between.intercalate parts) = (reading between).intercalate (parts.map reading) := by
  induction parts with
  | nil => simp
  | cons part rest ih =>
    by_cases hrest : rest = []
    · simp [hrest]
    · have hmap : rest.map reading ≠ [] := mt List.map_eq_nil_iff.1 hrest
      rw [List.intercalate_cons_of_ne_nil hrest, List.map_cons,
        String.intercalate_cons_of_ne_nil hmap, reading_append, reading_append, ih]

namespace Desk

/-- A desk on whose page the innermost group has been closed. -/
def leaving (desk : Desk) : Desk := { desk with page := desk.page.leave }

/-- A desk on whose page a separator and a break hint have been put. -/
def separated (desk : Desk) (separator : String) : Desk :=
  { desk with page := (desk.page.putText separator).putGap }

/-- A group that is left after it was entered leaves the groups as they were. -/
theorem groups_leaving {desk done : Desk}
    (h : done.page.groups = (desk.entering "").page.groups) :
    done.leaving.page.groups = desk.page.groups := by
  show done.page.groups.tail = desk.page.groups
  rw [h]
  rfl

end Desk

/-! ## Tidy actions -/

namespace Print

/-- Done at a desk, the action has an outcome and leaves another desk. What it emits on the way is
listed, and the groups are left as they were. -/
structure Emits (action : Print Unit) (desk : Desk) (outcome : Except Failure Unit)
    (emitted : List Emission) (after : Desk) : Prop where
  run : action.runAt desk = (outcome, after)
  page : ∃ marks, after.page = desk.page.follow marks ∧ desk.page.emissions marks = emitted
  groups : after.page.groups = desk.page.groups

/-- Wherever the action is done, it does nothing to the page but what can be done to a page, and
leaves the groups as it found them. It may fail. -/
def Tidy (action : Print Unit) : Prop :=
  ∀ desk, ∃ outcome emitted after, action.Emits desk outcome emitted after

/-- An action that always keeps the groups is tidy. -/
theorem Always.tidy {action : Print Unit} (h : action.Always Page.Keeps) : action.Tidy := by
  intro desk
  obtain ⟨marks, htakes, hkeeps⟩ := h desk
  have hgroups := (congrArg Page.groups htakes).trans hkeeps.groups
  exact ⟨_, _, _, rfl, ⟨marks, htakes, rfl⟩, hgroups⟩

namespace Emits

variable {action body next : Print Unit} {desk after last : Desk} {outcome : Except Failure Unit}
  {emitted emitted' : List Emission}

/-- An action that emits leaves as many groups open as it found. -/
theorem depth_eq (h : action.Emits desk outcome emitted after) :
    after.page.depth = desk.page.depth := congrArg List.length h.groups

/-- The text that is added to the page is what is emitted. -/
theorem text_eq (h : action.Emits desk outcome emitted after) :
    after.page.text = desk.page.text ++ Emission.reading emitted := by
  obtain ⟨marks, hpage, hemitted⟩ := h.page
  rw [hpage, Page.text_follow, hemitted]

/-- An action that succeeds, and the next one. -/
theorem bind (h : action.Emits desk (.ok ()) emitted after)
    (hnext : next.Emits after outcome emitted' last) :
    (do action; next : Print Unit).Emits desk outcome (emitted ++ emitted') last where
  run := (runAt_bind_ok h.run _).trans hnext.run
  page := by
    obtain ⟨marks, hpage, hemitted⟩ := h.page
    obtain ⟨marks', hpage', hemitted'⟩ := hnext.page
    rw [hpage] at hpage' hemitted'
    refine ⟨marks ++ marks', ?_, ?_⟩
    · rw [Page.follow_append, hpage']
    · rw [Page.emissions_append, hemitted, hemitted']
  groups := hnext.groups.trans h.groups

/-- Nothing is done after an action that fails. -/
theorem bind_error {x : Failure} (h : action.Emits desk (.error x) emitted after)
    (next : Print Unit) : (do action; next : Print Unit).Emits desk (.error x) emitted after where
  run := runAt_bind_error h.run _
  page := h.page
  groups := h.groups

/-- A group emits what is emitted in it, and is closed whatever happens. -/
theorem framed (h : body.Emits (desk.entering "") outcome emitted after) :
    (framed none 0 body).Emits desk outcome emitted after.leaving where
  run := by
    have henter : (enter "").runAt desk = (.ok (), desk.entering "") := rfl
    have hleave : leave.runAt after = (.ok (), after.leaving) := by
      show (if after.page.groups.isEmpty then (do note .refused; throw (.raise .noOpenGroup))
        else note .leave : Print Unit).runAt after = _
      rw [h.groups]
      rfl
    exact (runAt_bind_ok henter _).trans (runAt_ensuring h.run hleave)
  page := by
    obtain ⟨marks, hpage, hemitted⟩ := h.page
    refine ⟨.enter "" :: (marks ++ [.leave]), ?_, ?_⟩
    · rw [Page.follow_cons, Page.follow_append]
      exact congrArg Page.leave hpage
    · have hinside : (desk.page.enter "").emissions (marks ++ [.leave]) = emitted ++ [] := by
        rw [Page.emissions_append]
        exact congrArg (· ++ []) hemitted
      rw [List.append_nil] at hinside
      exact hinside
  groups := Desk.groups_leaving h.groups

end Emits

/-- Doing nothing emits nothing. -/
theorem emits_nothing (desk : Desk) : (pure () : Print Unit).Emits desk (.ok ()) [] desk :=
  ⟨rfl, ⟨[], rfl, rfl⟩, rfl⟩

/-- What separates two items is emitted where the first of them is. -/
theorem emits_separator (separator : String) (desk : Desk) :
    (do text separator; gap : Print Unit).Emits desk (.ok ())
      [⟨desk.page.depth, separator⟩, ⟨desk.page.depth, " "⟩] (desk.separated separator) :=
  ⟨rfl, ⟨[.text separator, .gap], rfl, rfl⟩, rfl⟩

end Print

/-- **Every structured script is tidy.** -/
theorem Printer.script_tidy (p : Printer) {steps : List Step}
    (h : Step.areStructured steps = true) : (p.script steps).Tidy :=
  (Page.closed_keeps.script p steps (.inl h)).tidy

/-! ## Turns -/

namespace Print

/-- An item that is not the last one is followed, in its group, by what separates it from the
next. -/
theorem sequence_cons (separator : String) (item : Print Unit) {rest : List (Print Unit)}
    (hrest : rest ≠ []) : sequence separator (item :: rest) = (do
      framed none 0 (do item; text separator; gap)
      sequence separator rest) := by
  cases rest with
  | nil => exact absurd rfl hrest
  | cons next rest => rfl

/-- The turn of an item in a sequence. -/
structure Turn where
  /-- The desk at which the item is done, inside the group of the item. -/
  start : Desk
  /-- How the item ends. -/
  outcome : Except Failure Unit
  /-- What the item emits. -/
  emitted : List Emission

/-- The text that an item adds in its turn. -/
def Turn.text (turn : Turn) : String := Emission.reading turn.emitted

/-- Items take turns, from a desk on, each in a group of its own. A turn is the final one if the
item fails or no other is left; its outcome is the outcome of all. After any other turn the
separator follows, the group is closed, and the turn is on the next item. -/
inductive Turns (separator : String) :
    Desk → List (Print Unit) → List Turn → Except Failure Unit → Desk → Prop where
  | none (desk : Desk) : Turns separator desk [] [] (.ok ()) desk
  | final {desk done : Desk} {item : Print Unit} {rest : List (Print Unit)}
    {outcome : Except Failure Unit} {emitted : List Emission}
    (hitem : item.Emits (desk.entering "") outcome emitted done)
    (hend : outcome = .ok () → rest = []) :
    Turns separator desk (item :: rest) [⟨desk.entering "", outcome, emitted⟩] outcome done.leaving
  | next {desk done after : Desk} {item : Print Unit} {rest : List (Print Unit)}
    {emitted : List Emission} {turns : List Turn} {outcome : Except Failure Unit}
    (hitem : item.Emits (desk.entering "") (.ok ()) emitted done) (hrest : rest ≠ [])
    (hturns : Turns separator (done.separated separator).leaving rest turns outcome after) :
    Turns separator desk (item :: rest) (⟨desk.entering "", .ok (), emitted⟩ :: turns) outcome after

/-- Tidy items take turns from every desk on. -/
theorem exists_turns (separator : String) {items : List (Print Unit)}
    (htidy : ∀ item ∈ items, item.Tidy) (desk : Desk) :
    ∃ turns outcome after, Turns separator desk items turns outcome after := by
  induction items generalizing desk with
  | nil => exact ⟨[], .ok (), desk, .none desk⟩
  | cons item rest ih =>
    obtain ⟨outcome, emitted, done, hitem⟩ := htidy item List.mem_cons_self (desk.entering "")
    by_cases hend : outcome = .ok () → rest = []
    · exact ⟨_, _, _, .final hitem hend⟩
    · obtain ⟨rfl, hrest⟩ := Classical.not_imp.1 hend
      obtain ⟨turns, outcome, after, hturns⟩ := ih
        (fun other hmem => htidy other (List.mem_cons_of_mem item hmem))
        (done.separated separator).leaving
      exact ⟨_, _, _, .next hitem hrest hturns⟩

namespace Turns

variable {separator : String} {desk after : Desk} {items : List (Print Unit)} {turns : List Turn}
  {outcome : Except Failure Unit}

/-- Where there are items, there are turns. -/
theorem ne_nil (h : Turns separator desk items turns outcome after) (hitems : items ≠ []) :
    turns ≠ [] := by
  cases h with
  | none => exact absurd rfl hitems
  | final => exact List.cons_ne_nil _ _
  | next => exact List.cons_ne_nil _ _

/-- Each item is done one group deeper than the sequence. -/
theorem groups_start (h : Turns separator desk items turns outcome after) :
    ∀ turn ∈ turns, turn.start.page.groups = "" :: desk.page.groups := by
  induction h with
  | none => exact fun turn hturn => absurd hturn List.not_mem_nil
  | final hitem hend =>
    intro turn hturn
    rw [List.mem_singleton.1 hturn]
    rfl
  | @next desk done after item rest emitted turns outcome hitem hrest hturns ih =>
    intro turn hturn
    rcases List.mem_cons.1 hturn with rfl | hturn
    · rfl
    · rw [ih turn hturn]
      have hgroups : (done.separated separator).leaving.page.groups = desk.page.groups :=
        Desk.groups_leaving hitem.groups
      rw [hgroups]

/-- Either every item has had its turn and has succeeded, or the last turn is that of the first item
that fails. -/
theorem ends (h : Turns separator desk items turns outcome after) :
    (outcome = .ok () ∧ turns.length = items.length ∧ ∀ turn ∈ turns, turn.outcome = .ok ()) ∨
      ∃ earlier last x, turns = earlier ++ [last] ∧ turns.length ≤ items.length ∧
        outcome = .error x ∧ last.outcome = .error x ∧
        ∀ turn ∈ earlier, turn.outcome = .ok () := by
  induction h with
  | none => exact .inl ⟨rfl, rfl, fun turn hturn => absurd hturn List.not_mem_nil⟩
  | @final desk done item rest outcome emitted hitem hend =>
    cases outcome with
    | ok u =>
      obtain rfl := hend rfl
      refine .inl ⟨rfl, rfl, fun turn hturn => ?_⟩
      rw [List.mem_singleton.1 hturn]
    | error x =>
      refine .inr ⟨[], _, x, rfl, ?_, rfl, rfl, fun turn hturn => absurd hturn List.not_mem_nil⟩
      exact Nat.le_add_left 1 rest.length
  | next hitem hrest hturns ih =>
    rcases ih with ⟨houtcome, hlength, hall⟩ | ⟨earlier, last, x, rfl, hle, houtcome, hlast, hall⟩
    · exact .inl ⟨houtcome, congrArg (· + 1) hlength, List.forall_mem_cons.2 ⟨rfl, hall⟩⟩
    · exact .inr ⟨_ :: earlier, last, x, rfl, Nat.succ_le_succ hle, houtcome, hlast,
        List.forall_mem_cons.2 ⟨rfl, hall⟩⟩

/-- **A sequence emits what its items emit in their turns**, joined by the separator and a break
hint that are one group deeper, and it ends as the turns do. -/
theorem sequence_emits (h : Turns separator desk items turns outcome after) :
    (sequence separator items).Emits desk outcome
      ([⟨desk.page.depth + 1, separator⟩, ⟨desk.page.depth + 1, " "⟩].intercalate
        (turns.map Turn.emitted)) after := by
  induction h with
  | none desk => exact emits_nothing desk
  | @final desk done item rest outcome emitted hitem hend =>
    rw [List.map_singleton, List.intercalate_singleton]
    by_cases hrest : rest = []
    · rw [hrest]
      exact hitem.framed
    · -- an item that is the final one before the others are done has failed
      rw [sequence_cons separator item hrest]
      cases outcome with
      | ok u => exact absurd (hend rfl) hrest
      | error x => exact (hitem.bind_error _).framed.bind_error _
  | @next desk done after item rest emitted turns outcome hitem hrest hturns ih =>
    have hfirst := (hitem.bind (emits_separator separator done)).framed
    have hgroups : (done.separated separator).leaving.page.groups = desk.page.groups :=
      Desk.groups_leaving hitem.groups
    have hdepth : (done.separated separator).leaving.page.depth = desk.page.depth :=
      congrArg List.length hgroups
    have hinside : done.page.depth = desk.page.depth + 1 := hitem.depth_eq
    have hmap : turns.map Turn.emitted ≠ [] := mt List.map_eq_nil_iff.1 (hturns.ne_nil hrest)
    rw [hinside] at hfirst
    rw [hdepth] at ih
    rw [sequence_cons separator item hrest, List.map_cons, List.intercalate_cons_of_ne_nil hmap]
    exact hfirst.bind ih

end Turns

/-- Joined texts, and one more: the separator follows each of them but the last. -/
theorem intercalate_concat (separator last : String) (texts : List String) :
    separator.intercalate (texts ++ [last]) =
      String.join (texts.map (· ++ separator)) ++ last := by
  induction texts with
  | nil => simp
  | cons s texts ih =>
    have hne : texts ++ [last] ≠ [] := List.concat_ne_nil last texts
    rw [List.cons_append, String.intercalate_cons_of_ne_nil hne, ih, List.map_cons,
      String.join_cons]
    simp only [String.append_assoc]

/-- **A sequence is a join that fails cleanly.** Let all items be tidy. From every desk on, they
take turns until one fails or none is left, and the sequence does just what they do.

* Each item starts one group deeper than the sequence. What the sequence emits is what the items
  emit in their turns, joined by the separator and a break hint that are one group deeper, too. So
  its text is that of the items, joined by the separator and one space.
* The groups are left as they were.
* Either every item has had its turn and has succeeded, and so does the sequence. Or the last turn
  is that of the first item that fails, and its failure is that of the sequence. The items before it
  are each followed by the separator and one space, and nothing follows what it had emitted. -/
theorem sequence_joins (separator : String) {items : List (Print Unit)}
    (htidy : ∀ item ∈ items, item.Tidy) (desk : Desk) :
    ∃ turns outcome emitted after, Turns separator desk items turns outcome after ∧
      (sequence separator items).Emits desk outcome emitted after ∧
      ((∀ turn ∈ turns, turn.start.page.groups = "" :: desk.page.groups) ∧
        emitted = [⟨desk.page.depth + 1, separator⟩, ⟨desk.page.depth + 1, " "⟩].intercalate
          (turns.map Turn.emitted) ∧
        after.page.text =
          desk.page.text ++ (separator ++ " ").intercalate (turns.map Turn.text)) ∧
      after.page.groups = desk.page.groups ∧
      ((outcome = .ok () ∧ turns.length = items.length ∧ ∀ turn ∈ turns, turn.outcome = .ok ()) ∨
        ∃ earlier last x, turns = earlier ++ [last] ∧ turns.length ≤ items.length ∧
          outcome = .error x ∧ last.outcome = .error x ∧
          (∀ turn ∈ earlier, turn.outcome = .ok ()) ∧
          after.page.text =
            desk.page.text ++ String.join (earlier.map (·.text ++ (separator ++ " "))) ++
              last.text) := by
  obtain ⟨turns, outcome, after, hturns⟩ := exists_turns separator htidy desk
  have hemits := hturns.sequence_emits
  have htext : after.page.text =
      desk.page.text ++ (separator ++ " ").intercalate (turns.map Turn.text) := by
    have hbetween : Emission.reading
        [⟨desk.page.depth + 1, separator⟩, ⟨desk.page.depth + 1, " "⟩] = separator ++ " " := by
      simp
    rw [hemits.text_eq, Emission.reading_intercalate, hbetween, List.map_map]
    rfl
  refine ⟨turns, outcome, _, after, hturns, hemits, ⟨hturns.groups_start, rfl, htext⟩,
    hemits.groups, ?_⟩
  refine hturns.ends.imp id ?_
  rintro ⟨earlier, last, x, rfl, hlength, houtcome, hlast, hearlier⟩
  refine ⟨earlier, last, x, rfl, hlength, houtcome, hlast, hearlier, ?_⟩
  rw [htext, List.map_append, List.map_singleton, intercalate_concat, List.map_map,
    String.append_assoc]
  rfl

/-- The second of three items fails inside a group of its own. The separator after the first item is
there, that after the second is not, and all groups that were opened are closed. -/
theorem sequence_joins_first_failure :
    let p : Printer := {}
    let x : Failure := .fault (.custom .general "no more" none)
    let items : List (Print Unit) :=
      [p.script [.text "a"], p.script [.group "g" [.text "b", .fail x]], p.script [.text "c"]]
    let desk : Desk := { page := { limit := 200, groups := ["outer"] } }
    (∀ item ∈ items, item.Tidy) ∧
      ∃ emitted after, (sequence "," items).Emits desk (.error x) emitted after ∧
        after.page.groups = ["outer"] ∧ after.page.text = "a, b" := by
  intro p x items desk
  have htidy : ∀ item ∈ items, item.Tidy := by
    refine List.forall_mem_cons.2 ⟨p.script_tidy (by decide), ?_⟩
    refine List.forall_mem_cons.2 ⟨p.script_tidy (by decide), ?_⟩
    exact List.forall_mem_singleton.2 (p.script_tidy (by decide))
  obtain ⟨turns, outcome, emitted, after, -, hemits, -, hgroups, -⟩ := sequence_joins "," htidy desk
  have houtcome : ((sequence "," items).runAt desk).1 = .error x := rfl
  have htext : ((sequence "," items).runAt desk).2.page.text = "a, b" := by decide
  rw [hemits.run] at houtcome htext
  obtain rfl : outcome = .error x := houtcome
  exact ⟨htidy, emitted, after, hemits, hgroups, htext⟩

end Print

end Nameless
