import Nameless.Print.Script
import Nameless.Proofs.Sketch

/-!
# Marks that are taken down one after the other

All that an action does to a page is to take down marks on it. `action.Takes desk marks` says that
the action, done at a desk, takes down just these marks, whether or not it fails. Since a page shows
which marks made it (`Page.follow_inj`), there is only one such list.

* **The text of a page is what was emitted on it** (`Page.text_follow`): an `Emission` is a text
  that is put on a page, together with the number of groups that are open at the time.
* There is one rule for each way to build an action: in sequence (`Print.Takes.bind`,
  `Print.Takes.bind_error`), with an action at the end that is done in any case
  (`Print.Takes.ensuring`), in a group (`Print.Takes.inGroup`), and between the parentheses of a
  frame (`Print.Takes.enclosed`).
-/

namespace Nameless

/-! ## Pages that follow each other -/

namespace Page

/-- A page on which one mark after the other has been taken down. -/
def follow (page : Page) (marks : List Mark) : Page := marks.foldl note page

/-- Without a mark, a page stays as it is. -/
@[simp] theorem follow_nil (page : Page) : page.follow [] = page := rfl

/-- The first mark, and then the rest. -/
@[simp] theorem follow_cons (page : Page) (mark : Mark) (marks : List Mark) :
    page.follow (mark :: marks) = (page.note mark).follow marks := rfl

/-- Some marks, and then some more. -/
@[simp] theorem follow_append (page : Page) (marks marks' : List Mark) :
    page.follow (marks ++ marks') = (page.follow marks).follow marks' :=
  List.foldl_append

/-- The marks stand on the page in their order. -/
theorem marks_follow (page : Page) (marks : List Mark) :
    (page.follow marks).marks.toList = page.marks.toList ++ marks := by
  induction marks generalizing page with
  | nil => simp
  | cons mark marks ih => simp [ih, note]

/-- **A page shows which marks made it.** -/
theorem follow_inj {page : Page} {marks marks' : List Mark}
    (h : page.follow marks = page.follow marks') : marks = marks' := by
  have hlists := congrArg (fun q : Page => q.marks.toList) h
  simpa only [marks_follow, List.append_cancel_left_eq] using hlists

/-- A mark leaves the limit of a page as it is. -/
@[simp] theorem limit_note (page : Page) (mark : Mark) : (page.note mark).limit = page.limit := rfl

/-- Whatever is taken down on a page, its limit stays as it is. -/
@[simp] theorem limit_follow (page : Page) (marks : List Mark) :
    (page.follow marks).limit = page.limit := by
  induction marks generalizing page with
  | nil => rfl
  | cons mark marks ih => rw [follow_cons, ih, limit_note]

/-- The mark that is taken down to close the innermost group: there may be none. -/
def closing (page : Page) : Mark := if page.groups.isEmpty then .refused else .leave

/-- Where a group is open, it can be closed. -/
theorem closing_eq_leave {page : Page} {name : String} {groups : List String}
    (h : page.groups = name :: groups) : page.closing = .leave := by
  rw [closing, h]
  rfl

end Page

/-! ## What is emitted -/

/-- A text that is put on a page, with the number of groups that are open at the time. -/
structure Emission where
  /-- The number of open groups. -/
  depth : Nat
  /-- The text. -/
  text : String
deriving DecidableEq, Repr

/-- How emissions read, one after the other. -/
def Emission.reading (emitted : List Emission) : String := String.join (emitted.map Emission.text)

/-- Nothing reads as the empty text. -/
@[simp] theorem Emission.reading_nil : reading [] = "" := rfl

/-- The first emission, and then the rest. -/
@[simp] theorem Emission.reading_cons (e : Emission) (emitted : List Emission) :
    reading (e :: emitted) = e.text ++ reading emitted := String.join_cons

/-- Some emissions, and then some more. -/
@[simp] theorem Emission.reading_append (emitted emitted' : List Emission) :
    reading (emitted ++ emitted') = reading emitted ++ reading emitted' := by
  simp [reading]

/-- The text that a mark puts on a page, if any. The brackets of groups put nothing there. -/
def Mark.shown? : Mark → Option String
  | enter _ | leave | refused => none
  | mark => some mark.reading

namespace Page

/-- The texts that are put on a page when one mark after the other is taken down. -/
def emissions (page : Page) : List Mark → List Emission
  | [] => []
  | mark :: rest => (mark.shown?.map (⟨page.depth, ·⟩)).toList ++ (page.note mark).emissions rest

/-- What is emitted by some marks, and then by some more. -/
theorem emissions_append (page : Page) (marks marks' : List Mark) :
    page.emissions (marks ++ marks') =
      page.emissions marks ++ (page.follow marks).emissions marks' := by
  induction marks generalizing page with
  | nil => rfl
  | cons mark marks ih =>
    rw [List.cons_append, emissions, emissions, ih, List.append_assoc]
    rfl

/-- **The text of a page is what was emitted on it.** -/
theorem text_follow (page : Page) (marks : List Mark) :
    (page.follow marks).text = page.text ++ Emission.reading (page.emissions marks) := by
  induction marks generalizing page with
  | nil => simp [emissions]
  | cons mark marks ih =>
    have hone : Emission.reading (mark.shown?.map (⟨page.depth, ·⟩)).toList = mark.reading := by
      cases mark with
      | _ => simp [Mark.shown?, Mark.reading]
    rw [follow_cons, ih, text_note, emissions, Emission.reading_append, hone, String.append_assoc]

/-- Whatever is taken down on a page, its text stays at the beginning. -/
theorem exists_text_follow (page : Page) (marks : List Mark) :
    ∃ added, (page.follow marks).text = page.text ++ added :=
  ⟨_, page.text_follow marks⟩

end Page

/-! ## Actions -/

namespace Print

variable {α β : Type}

/-- Done at a desk, the action takes down just these marks on the page. It may fail. -/
def Takes (action : Print α) (desk : Desk) (marks : List Mark) : Prop :=
  (action.runAt desk).2.page = desk.page.follow marks

/-- There is only one list of marks that an action takes down. -/
theorem Takes.unique {action : Print α} {desk : Desk} {marks marks' : List Mark}
    (h : action.Takes desk marks) (h' : action.Takes desk marks') : marks = marks' :=
  Page.follow_inj (h.symm.trans h')

/-- The page that an action leaves. -/
theorem Takes.page_eq {action : Print α} {desk desk' : Desk} {marks : List Mark}
    {outcome : Except Failure α} (h : action.Takes desk marks)
    (hrun : action.runAt desk = (outcome, desk')) : desk'.page = desk.page.follow marks := by
  rw [← h, hrun]

/-- Taking down a mark. -/
theorem takes_note (mark : Mark) (desk : Desk) : (note mark).Takes desk [mark] := rfl

/-- Where no group can be closed, this is taken down as well. -/
theorem takes_leave (desk : Desk) : leave.Takes desk [desk.page.closing] := by
  show ((if desk.page.groups.isEmpty then (do note .refused; throw (.raise .noOpenGroup))
    else note .leave : Print Unit).runAt desk).2.page = _
  unfold Page.closing
  split
  · rfl
  · rfl

/-- An action that succeeds, and the next one. -/
theorem Takes.bind {action : Print α} {desk desk' : Desk} {marks marks' : List Mark} {a : α}
    (h : action.Takes desk marks) (hrun : action.runAt desk = (.ok a, desk')) {f : α → Print β}
    (hf : (f a).Takes desk' marks') : (action >>= f).Takes desk (marks ++ marks') := by
  unfold Takes at h hf ⊢
  rw [hrun] at h
  rw [runAt_bind_ok hrun, hf, h, Page.follow_append]

/-- Nothing is done after an action that fails. -/
theorem Takes.bind_error {action : Print α} {desk desk' : Desk} {marks : List Mark} {x : Failure}
    (h : action.Takes desk marks) (hrun : action.runAt desk = (.error x, desk'))
    (f : α → Print β) : (action >>= f).Takes desk marks := by
  unfold Takes at h ⊢
  rw [hrun] at h
  rw [runAt_bind_error hrun, h]

/-- What is done in the end is done also if the body fails. -/
theorem Takes.ensuring {body : Print α} {final : Print Unit} {desk : Desk}
    {marks marks' : List Mark} (h : body.Takes desk marks)
    (hfinal : final.Takes (body.runAt desk).2 marks') :
    (ensuring body final).Takes desk (marks ++ marks') := by
  have hpage : (final.runAt (body.runAt desk).2).2.page = desk.page.follow (marks ++ marks') := by
    rw [Page.follow_append, ← h, hfinal]
  have hbody : body.runAt desk = ((body.runAt desk).1, (body.runAt desk).2) := rfl
  unfold Takes
  cases hend : final.runAt (body.runAt desk).2 with
  | mk outcome last =>
    rw [hend] at hpage
    cases outcome with
    | ok u => rwa [runAt_ensuring hbody hend]
    | error x => rwa [runAt_ensuring_error hbody hend]

/-- The marks of a group stand around those of what is in it. -/
theorem Takes.inGroup {body : Print α} {name : String} {desk : Desk} {marks : List Mark}
    (h : body.Takes (desk.entering name) marks) :
    (inGroup name body).Takes desk
      (.enter name :: (marks ++ [((desk.page.enter name).follow marks).closing])) := by
  have hrun : (enter name).runAt desk = (.ok (), desk.entering name) := rfl
  have hleave := takes_leave (body.runAt (desk.entering name)).2
  rw [h] at hleave
  exact (takes_note (.enter name) desk).bind hrun (h.ensuring hleave)

/-- The parentheses of a frame stand around what is between them. -/
theorem Takes.enclosed {body : Print α} {desk : Desk} {marks : List Mark}
    (h : body.Takes { desk with page := desk.page.note .opening } marks) :
    (enclosed body).Takes desk (.opening :: (marks ++ [.closing])) := by
  have hrun : (note .opening).runAt desk =
      (.ok (), { desk with page := desk.page.note .opening }) := rfl
  exact (takes_note .opening desk).bind hrun (h.ensuring (takes_note .closing _))

/-- What is done apart leaves no mark on the page at hand. -/
theorem takes_apart (limit : Int) (body : Print Unit) (desk : Desk) :
    (apart limit body).Takes desk [] := by
  have hrun : (apart limit body).runAt desk = _ := runAt_apart rfl
  rw [Takes, hrun, Page.follow_nil]

end Print

/-- Names are chosen away from the page. -/
theorem Printer.takes_chooseNames (p : Printer) (context : List String) (body : Term)
    (hints : List String) (desk : Desk) :
    (p.chooseNames context body [] hints).Takes desk [] := by
  have hrun : (p.chooseNames context body [] hints).runAt desk = _ :=
    p.chooseNames_adds context body [] hints desk
  rw [Print.Takes, hrun]
  simp [Desk.add]

end Nameless
