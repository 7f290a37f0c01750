import Mathlib.Logic.Relation
import Nameless.Proofs.Bracketing
import Nameless.Proofs.Trace

/-!
# How deep groups are nested

The limit on groups is looked at on reaching a term, and nowhere else. Between two terms a printer
opens groups without looking: one around a variable or an application, two around a binder list, and
two more around each name in it. So the limit is exceeded, but by no more than this, however large
the term is.

An action makes one page after the other (`Print.Visits`). To print a term is a `Printer.Call` at a
desk. One call makes others (`Printer.Calls`), each of them at the desk as it is at that moment
(`Printer.Calls.includes`).

* **Pages keep their limit** from call to call (`Printer.limit_of_calls`), and a call on a full page
  puts nothing on it (`Printer.runAt_term_of_full`).
* **Only binder lists go beyond the limit** (`Printer.term_visits`): at every other moment, at most
  as many groups are open as the limit allows.
* **A binder list opens at most four groups** (`Printer.Lists.depth_le`).
* So **the depth of groups is bounded by the limit** (`Printer.term_depth_bounded`).
-/

namespace Nameless

/-- The opening of a parenthesis, as a record and as a mark. -/
theorem Desk.add_opening (desk : Desk) :
    desk.add ⟨[.opening], [], []⟩ = { desk with page := desk.page.note .opening } := by
  simp [add, Page.note]

/-! ## Moments -/

namespace Print

variable {α β : Type}

/-- At every moment of the action, done at a desk, the page is one of `M`. -/
def Visits (action : Print α) (desk : Desk) (M : Page → Prop) : Prop :=
  ∃ marks, action.Takes desk marks ∧ ∀ before, before <+: marks → M (desk.page.follow before)

namespace Visits

variable {desk : Desk} {M : Page → Prop}

/-- An action that takes nothing down stays on the page that it finds. -/
theorem of_nil {action : Print α} (h : action.Takes desk []) (hstart : M desk.page) :
    action.Visits desk M := by
  refine ⟨[], h, ?_⟩
  intro before hbefore
  rw [List.prefix_nil.1 hbefore]
  exact hstart

/-- The page that an action leaves is the last one. -/
theorem last {action : Print α} (h : action.Visits desk M) : M (action.runAt desk).2.page := by
  obtain ⟨marks, htakes, hmarks⟩ := h
  rw [htakes]
  exact hmarks marks List.prefix_rfl

/-- What holds at every moment of two actions holds at every moment of one after the other. -/
theorem bind {action : Print α} (h : action.Visits desk M) {f : α → Print β}
    (hf : ∀ a desk', action.runAt desk = (.ok a, desk') → (f a).Visits desk' M) :
    (action >>= f).Visits desk M := by
  obtain ⟨marks, htakes, hmarks⟩ := h
  cases hrun : action.runAt desk with
  | mk outcome after =>
    cases outcome with
    | error x => exact ⟨marks, htakes.bind_error hrun f, hmarks⟩
    | ok a =>
      obtain ⟨marks', htakes', hmarks'⟩ := hf a after hrun
      refine ⟨marks ++ marks', htakes.bind hrun htakes', ?_⟩
      intro before hbefore
      rcases Mark.prefix_or_rest hbefore with hin | ⟨rest, hrest, rfl⟩
      · exact hmarks before hin
      · rw [Page.follow_append, ← htakes.page_eq hrun]
        exact hmarks' rest hrest

/-- At a moment of a group, one is outside of it or at a moment of what is inside. -/
theorem inGroup {name : String} {body : Print α} (h : body.Visits (desk.entering name) M)
    (hkeeps : body.Always Page.Keeps) (hout : ∀ q : Page, q.depth = desk.page.depth → M q) :
    (inGroup name body).Visits desk M := by
  obtain ⟨marks, htakes, hmarks⟩ := h
  obtain ⟨marks', htakes', hkept⟩ := hkeeps (desk.entering name)
  rw [htakes'.unique htakes] at hkept
  refine ⟨_, htakes.inGroup, ?_⟩
  intro before hbefore
  rcases List.prefix_cons_iff.1 hbefore with rfl | ⟨rest, rfl, hrest⟩
  · exact hout _ rfl
  rcases List.prefix_concat_iff.1 hrest with rfl | hinside
  · exact hout _ (congrArg List.length hkept.grouped.groups)
  · exact hmarks rest hinside

/-- At a moment of a parenthesis, one is outside of it or at a moment of what is inside. -/
theorem enclosed {body : Print α} (h : body.Visits { desk with page := desk.page.note .opening } M)
    (hkeeps : body.Always Page.Keeps) (hout : ∀ q : Page, q.depth = desk.page.depth → M q) :
    (enclosed body).Visits desk M := by
  obtain ⟨marks, htakes, hmarks⟩ := h
  obtain ⟨marks', htakes', hkept⟩ := hkeeps { desk with page := desk.page.note .opening }
  rw [htakes'.unique htakes] at hkept
  refine ⟨_, htakes.enclosed, ?_⟩
  intro before hbefore
  rcases List.prefix_cons_iff.1 hbefore with rfl | ⟨rest, rfl, hrest⟩
  · exact hout _ rfl
  rcases List.prefix_concat_iff.1 hrest with rfl | hinside
  · exact hout _ (congrArg List.length hkept.enclosed.groups)
  · exact hmarks rest hinside

/-- At a moment of a frame, its group is not open or one is at a moment of what is inside. -/
theorem framed {max : Option Int} {level : Int} {body : Print α}
    (h : body.Visits (desk.framing max level) M) (hkeeps : body.Always Page.Keeps)
    (hout : ∀ q : Page, q.depth = desk.page.depth → M q) :
    (framed max level body).Visits desk M := by
  unfold Desk.framing at h
  unfold Print.framed
  split at h
  · rename_i hparen
    rw [if_pos hparen]
    rw [Desk.add_opening] at h
    exact (h.inGroup hkeeps hout).enclosed (Page.closed_keeps.inGroup "" hkeeps) hout
  · rename_i hparen
    rw [if_neg hparen]
    exact h.inGroup hkeeps hout

/-- What holds at every moment implies what is weaker. -/
theorem mono {action : Print α} {M' : Page → Prop} (h : action.Visits desk M)
    (himp : ∀ q, M q → M' q) : action.Visits desk M' := by
  obtain ⟨marks, htakes, hmarks⟩ := h
  exact ⟨marks, htakes, fun before hbefore => himp _ (hmarks before hbefore)⟩

end Visits

/-- Groups that are kept are as many as before. -/
theorem Always.depth_eq {action : Print α} (h : action.Always Page.Keeps) {desk desk' : Desk}
    {outcome : Except Failure α} (hrun : action.runAt desk = (outcome, desk')) :
    desk'.page.depth = desk.page.depth := by
  obtain ⟨marks, htakes, hkeeps⟩ := h desk
  rw [htakes.page_eq hrun]
  exact congrArg List.length hkeeps.groups

end Print

/-- What an action adds to the page is what it takes down. -/
theorem Print.Adds.marks_eq {α : Type} {action : Print α} {desk : Desk}
    {outcome : Except Failure α} {r : Record} (h : action.Adds desk outcome r) {marks : List Mark}
    (htakes : action.Takes desk marks) : marks = r.marks := by
  have hmarks := Page.marks_follow desk.page marks
  rw [← htakes, h] at hmarks
  simpa [Desk.add] using hmarks.symm

/-! ## Groups that are opened on the way -/

/-- The groups are kept, and at no moment are more than `k` groups open in addition to them. -/
structure Page.Within (k : Nat) (page : Page) (marks : List Mark) : Prop where
  /-- The groups are kept. -/
  keeps : page.Keeps marks
  /-- At no moment are more than `k` groups open in addition. -/
  depth_le : ∀ before, before <+: marks → (page.follow before).depth ≤ page.depth + k

namespace Page

/-- A mark that opens and closes no group opens none on the way. -/
theorem within_single {page : Page} {mark : Mark} (hmark : mark ≠ .refused)
    (hgroups : (page.note mark).groups = page.groups) (k : Nat) : page.Within k [mark] where
  keeps := keeps_single hmark hgroups
  depth_le := by
    intro before hbefore
    rcases List.prefix_cons_iff.1 hbefore with rfl | ⟨rest, rfl, hrest⟩
    · exact Nat.le_add_right _ _
    · rw [List.prefix_nil.1 hrest, follow_cons, follow_nil, depth, hgroups]
      exact Nat.le_add_right _ _

/-- The bound on the groups may be put together from one part after the other. -/
theorem chained_within (k : Nat) : Chained (Within k) where
  nil page := by
    refine ⟨keeps_nil page, ?_⟩
    intro before hbefore
    rw [List.prefix_nil.1 hbefore]
    exact Nat.le_add_right _ _
  append {page marks marks'} h h' := by
    refine ⟨h.keeps.append h'.keeps, ?_⟩
    intro before hbefore
    rcases Mark.prefix_or_rest hbefore with hin | ⟨rest, hrest, rfl⟩
    · exact h.depth_le before hin
    · have hdepth := h'.depth_le rest hrest
      have hstart : (page.follow marks).depth = page.depth := congrArg List.length h.keeps.groups
      rwa [hstart, ← follow_append] at hdepth

/-- A group is one group more. -/
theorem Within.grouped {k : Nat} {name : String} {page : Page} {marks : List Mark}
    (h : (page.enter name).Within k marks) :
    page.Within (k + 1) (.enter name :: (marks ++ [((page.enter name).follow marks).closing])) where
  keeps := h.keeps.grouped
  depth_le := by
    intro before hbefore
    rcases List.prefix_cons_iff.1 hbefore with rfl | ⟨rest, rfl, hrest⟩
    · exact Nat.le_add_right _ _
    rcases List.prefix_concat_iff.1 hrest with rfl | hinside
    · have hend := congrArg List.length h.keeps.grouped.groups
      exact Nat.le_trans (Nat.le_of_eq hend) (Nat.le_add_right _ _)
    · have hdepth := h.depth_le rest hinside
      rw [depth_enter] at hdepth
      show ((page.enter name).follow rest).depth ≤ page.depth + (k + 1)
      omega

end Page

/-- At no moment are more groups open than the bound says. -/
theorem Print.Always.visits {α : Type} {action : Print α} {k : Nat}
    (h : action.Always (Page.Within k)) (desk : Desk) :
    action.Visits desk fun q => q.depth ≤ desk.page.depth + k := by
  obtain ⟨marks, htakes, hwithin⟩ := h desk
  exact ⟨marks, htakes, hwithin.depth_le⟩

/-- A bound on the groups that are opened implies that all are closed. -/
theorem Print.Always.keeps {α : Type} {action : Print α} {k : Nat}
    (h : action.Always (Page.Within k)) : action.Always Page.Keeps := by
  intro desk
  obtain ⟨marks, htakes, hwithin⟩ := h desk
  exact ⟨marks, htakes, hwithin.keeps⟩

namespace Printer

open Print

/-- No group is opened to print a text. -/
theorem within_text (k : Nat) (s : String) : (Print.text s).Always (Page.Within k) :=
  .note fun _ => Page.within_single (by simp) rfl k

/-- No group is opened to print a break hint. -/
theorem within_gap (k : Nat) : Print.gap.Always (Page.Within k) :=
  .note fun _ => Page.within_single (by decide) rfl k

/-- An identifier has one group. -/
theorem within_ident (name : String) : (Print.ident name).Always (Page.Within 1) :=
  (within_text 0 name).inGroup Page.Within.grouped

/-- **Two groups are open around a name in a binder list**: its own and that of an item. -/
theorem within_heading (p : Printer) (names : List String) :
    (p.heading names).Always (Page.Within 2) := by
  have hnames : (Print.sequence "" (names.map Print.ident)).Always (Page.Within 2) := by
    have hitems : ∀ item ∈ names.map Print.ident, item.Always (Page.Within 1) := by
      intro item hitem
      obtain ⟨name, -, rfl⟩ := List.mem_map.1 hitem
      exact within_ident name
    refine (Page.chained_within 2).sequence hitems ?_ ?_
    · intro item hitem
      exact (Page.chained_within 1).bind hitem fun _ =>
        (Page.chained_within 1).bind (within_text 1 "") fun _ => within_gap 1
    · intro item hitem
      exact hitem.inGroup Page.Within.grouped
  refine (Page.chained_within 2).bind (within_text 2 _) fun _ => ?_
  refine (Page.chained_within 2).bind hnames fun _ => ?_
  exact (Page.chained_within 2).bind (within_text 2 _) fun _ => within_gap 2

/-! ## Calls -/

/-- A term to be printed in a context, in a place that allows a level, at a desk. -/
structure Call where
  /-- The names in scope. -/
  context : List String
  /-- The term. -/
  term : Term
  /-- The level that its place allows. -/
  max : Option Int
  /-- The desk at which it is printed. -/
  desk : Desk

/-- How a call is answered: the term is printed at the desk. -/
def answer (p : Printer) (c : Call) : Print Unit := p.term c.context c.term c.max

/-- What is called for on the way, in one step: the head of a pending term that is exposed, the body
below a binder list, and the two parts of an application, the second one unless the first one
fails. The desk is the one that is there at that moment. On a full page nothing is called for. -/
inductive Calls (p : Printer) : Call → Call → Prop where
  | head {context : List String} {loc : Option Span} {s : Subst} {body r : Term}
    {max : Option Int} {desk : Desk} (hroom : ¬ desk.page.isFull = true)
    (hforce : body.force s = .ok r) :
    Calls p ⟨context, .pending loc s body, max, desk⟩ ⟨context, r, max, desk⟩
  | body {context : List String} {loc : Option Span} {hint : String} {body inner : Term}
    {hints chosen : List String} {max : Option Int} {desk named headed : Desk}
    (hroom : ¬ desk.page.isFull = true) (hrun : body.run = .ok (hints, inner))
    (hnames : (p.chooseNames context inner [] (hint :: hints).reverse).runAt
      (desk.framing max Level.lam) = (.ok chosen, named))
    (hlist : (p.heading chosen.reverse).runAt (named.framing none Level.lam) = (.ok (), headed)) :
    Calls p ⟨context, .lam loc hint body, max, desk⟩ ⟨chosen ++ context, inner, none, headed⟩
  | fn {context : List String} {loc : Option Span} {fn arg : Term} {max : Option Int} {desk : Desk}
    (hroom : ¬ desk.page.isFull = true) :
    Calls p ⟨context, .app loc fn arg, max, desk⟩
      ⟨context, fn, some Level.app, desk.framing max Level.app⟩
  | arg {context : List String} {loc : Option Span} {fn arg : Term} {max : Option Int}
    {desk between spaced : Desk} (hroom : ¬ desk.page.isFull = true)
    (hfn : (p.term context fn (some Level.app)).runAt (desk.framing max Level.app) =
      (.ok (), between))
    (hgap : gap.runAt between = (.ok (), spaced)) :
    Calls p ⟨context, .app loc fn arg, max, desk⟩ ⟨context, arg, some 0, spaced⟩

/-- The page `q` is met while a binder list is put down, to answer a call for its abstraction. -/
inductive Lists (p : Printer) : Call → Page → Prop where
  | mk {context : List String} {loc : Option Span} {hint : String} {body inner : Term}
    {hints chosen : List String} {max : Option Int} {desk named : Desk} {before marks : List Mark}
    (hroom : ¬ desk.page.isFull = true) (hrun : body.run = .ok (hints, inner))
    (hnames : (p.chooseNames context inner [] (hint :: hints).reverse).runAt
      (desk.framing max Level.lam) = (.ok chosen, named))
    (hlist : (p.heading chosen.reverse).Takes (named.framing none Level.lam) marks)
    (hbefore : before <+: marks) :
    Lists p ⟨context, .lam loc hint body, max, desk⟩
      ((named.framing none Level.lam).page.follow before)

/-! ### Where calls stand in the calls that make them -/

end Printer

/-- What `inner` takes down at the desk `desk'` is a part of what `outer` takes down at the desk
`desk`, and the page of `desk'` is the page at the moment at which that part begins. -/
def Print.Includes {α β : Type} (outer : Print α) (desk : Desk) (inner : Print β) (desk' : Desk) :
    Prop :=
  ∀ inside, inner.Takes desk' inside → ∃ before after,
    outer.Takes desk (before ++ (inside ++ after)) ∧ desk'.page = desk.page.follow before

namespace Print

variable {α β γ : Type} {outer : Print α} {middle : Print β} {inner : Print γ}
  {desk desk' desk'' : Desk}

/-- An action is a part of itself. -/
theorem includes_refl (action : Print α) (desk : Desk) : action.Includes desk action desk := by
  intro inside hinside
  exact ⟨[], [], by rwa [List.append_nil], rfl⟩

/-- A part of a part is a part. -/
theorem Includes.trans (h : outer.Includes desk middle desk')
    (h' : middle.Includes desk' inner desk'') : outer.Includes desk inner desk'' := by
  intro inside hinside
  obtain ⟨before', after', hmiddle, hpage'⟩ := h' inside hinside
  obtain ⟨before, after, houter, hpage⟩ := h _ hmiddle
  refine ⟨before ++ before', after' ++ after, ?_, ?_⟩
  · simpa only [List.append_assoc] using houter
  · rw [hpage', hpage, Page.follow_append]

/-- The first of two actions is a part of both. -/
theorem includes_first {R : Page → List Mark → Prop} (action : Print α) {f : α → Print β}
    (hf : ∀ a, (f a).Always R) (desk : Desk) : (action >>= f).Includes desk action desk := by
  intro inside hinside
  cases hrun : action.runAt desk with
  | mk outcome after =>
    cases outcome with
    | error x => exact ⟨[], [], by simpa using hinside.bind_error hrun f, rfl⟩
    | ok a =>
      obtain ⟨marks, htakes, -⟩ := hf a after
      exact ⟨[], marks, hinside.bind hrun htakes, rfl⟩

/-- The second of two actions is a part of both, if the first one succeeds. -/
theorem includes_next {R : Page → List Mark → Prop} {action : Print α} (h : action.Always R)
    {a : α} (hrun : action.runAt desk = (.ok a, desk')) (f : α → Print β) :
    (action >>= f).Includes desk (f a) desk' := by
  intro inside hinside
  obtain ⟨marks, htakes, -⟩ := h desk
  refine ⟨marks, [], ?_, htakes.page_eq hrun⟩
  rw [List.append_nil]
  exact htakes.bind hrun hinside

/-- What is in a group is a part of it. -/
theorem includes_inGroup (name : String) (body : Print α) (desk : Desk) :
    (inGroup name body).Includes desk body (desk.entering name) := by
  intro inside hinside
  exact ⟨[.enter name], _, hinside.inGroup, rfl⟩

/-- What is in a frame is a part of it. -/
theorem includes_framed (max : Option Int) (level : Int) (body : Print α) (desk : Desk) :
    (framed max level body).Includes desk body (desk.framing max level) := by
  unfold Print.framed Desk.framing
  split
  · have henclosed : (enclosed (inGroup "" body)).Includes desk (inGroup "" body)
        { desk with page := desk.page.note .opening } := by
      intro inside hinside
      exact ⟨[.opening], [.closing], hinside.enclosed, rfl⟩
    rw [Desk.add_opening]
    exact henclosed.trans (includes_inGroup "" body _)
  · exact includes_inGroup "" body desk

/-- On a page that is not full, what is done there is all that is done. -/
theorem includes_unlessFull (h : ¬ desk.page.isFull = true) (kind : Term.Kind)
    (body : Print Unit) :
    (do if (← page).isFull then skip kind else body : Print Unit).Includes desk body desk := by
  show (if desk.page.isFull then skip kind else body).Includes desk body desk
  rw [if_neg h]
  exact includes_refl body desk

end Print

namespace Printer

open Print

/-- **A call that is made is a part of the call that makes it**, at the desk as it is at that
moment. -/
theorem Calls.includes {p : Printer} {c c' : Call} (h : p.Calls c c') :
    (p.answer c).Includes c.desk (p.answer c') c'.desk := by
  cases h with
  | @head context loc s body r max desk hroom hforce =>
    simp only [answer]
    rw [term, hforce]
    exact includes_unlessFull hroom _ _
  | @body context loc hint body inner hints chosen max desk named headed hroom hrun hnames hlist =>
    simp only [answer]
    rw [term, hrun]
    refine (includes_unlessFull hroom _ _).trans ((includes_framed _ _ _ _).trans ?_)
    refine (includes_next (Page.closed_keeps.chooseNames p _ _ _) hnames _).trans ?_
    refine (includes_framed _ _ _ _).trans ?_
    exact includes_next (Page.closed_keeps.heading p _) hlist _
  | @fn context loc fn arg max desk hroom =>
    simp only [answer]
    rw [term]
    refine (includes_unlessFull hroom _ _).trans ((includes_framed _ _ _ _).trans ?_)
    refine includes_first (R := Page.Keeps) _ (fun _ => ?_) _
    exact Page.closed_keeps.bind Page.closed_keeps.printGap fun _ =>
      Page.closed_keeps.term p context arg (some 0)
  | @arg context loc fn arg max desk between spaced hroom hfn hgap =>
    simp only [answer]
    rw [term]
    refine (includes_unlessFull hroom _ _).trans ((includes_framed _ _ _ _).trans ?_)
    refine (includes_next (Page.closed_keeps.term p _ _ _) hfn _).trans ?_
    exact includes_next Page.closed_keeps.printGap hgap _

/-- All calls that are made on the way are parts of the first one, in the same sense. -/
theorem includes_of_calls {p : Printer} {c c' : Call} (h : Relation.ReflTransGen p.Calls c c') :
    (p.answer c).Includes c.desk (p.answer c') c'.desk := by
  induction h with
  | refl => exact includes_refl _ _
  | tail _ hstep ih => exact ih.trans hstep.includes

/-- Pages keep their limit from call to call. -/
theorem limit_of_calls {p : Printer} {c c' : Call} (h : Relation.ReflTransGen p.Calls c c') :
    c'.desk.page.limit = c.desk.page.limit := by
  obtain ⟨inside, hinside, -⟩ :=
    Page.closed_keeps.term p c'.context c'.term c'.max c'.desk
  obtain ⟨before, after, -, hpage⟩ := includes_of_calls h inside hinside
  rw [hpage, Page.limit_follow]

/-- A call on a full page takes nothing down. -/
theorem takes_answer_of_full {p : Printer} {c : Call} (h : c.desk.page.isFull = true) :
    (p.answer c).Takes c.desk [] := by
  rw [Takes, answer, runAt_term_of_full p _ _ _ h]
  rfl

/-! ## Depths -/

/-- On a page that is not full, one group more can be opened. -/
theorem depth_lt_of_room {page : Page} (h : ¬ page.isFull = true) :
    (page.depth : Int) < page.limit := by
  rw [Page.isFull_iff] at h
  omega

/-- Names are chosen away from the page. -/
theorem page_of_chooseNames {p : Printer} {context hints chosen : List String} {body : Term}
    {desk named : Desk}
    (h : (p.chooseNames context body [] hints).runAt desk = (.ok chosen, named)) :
    named.page = desk.page := (p.takes_chooseNames context body hints desk).page_eq h

/-- **A binder list opens at most four groups**, two of them around each name in it, and is put down
only where the page is not full. -/
theorem Lists.depth_le {p : Printer} {c : Call} {q : Page} (h : p.Lists c q) :
    (c.desk.page.depth : Int) < c.desk.page.limit ∧ q.depth ≤ c.desk.page.depth + 4 := by
  cases h with
  | @mk context loc hint body inner hints chosen max desk named before marks hroom hrun hnames hlist
      hbefore =>
    obtain ⟨marks', htakes, hwithin⟩ :=
      p.within_heading chosen.reverse (named.framing none Level.lam)
    rw [← hlist.unique htakes] at hwithin
    have hdepth := hwithin.depth_le before hbefore
    rw [Desk.depth_framing, page_of_chooseNames hnames, Desk.depth_framing] at hdepth
    exact ⟨depth_lt_of_room hroom, hdepth⟩

/-- At a moment of a call at which the page is `q`, no more groups are open than the limit allows,
or a binder list is being put down for a call that is made on the way. -/
def Bounded (p : Printer) (c : Call) (q : Page) : Prop :=
  (q.depth : Int) ≤ c.desk.page.limit ∨
    ∃ c', Relation.ReflTransGen p.Calls c c' ∧ p.Lists c' q

/-- **What is bounded in a call is bounded in the call that makes it.** -/
theorem Bounded.of_calls {p : Printer} {c c' : Call} {q : Page} (hq : p.Bounded c' q)
    (h : p.Calls c c') : p.Bounded c q := by
  rcases hq with hq | ⟨c'', hcalls, hlists⟩
  · rw [limit_of_calls (.single h)] at hq
    exact .inl hq
  · exact .inr ⟨c'', .head h hcalls, hlists⟩

/-- On a page that is not full, a frame in which no group is opened is bounded. -/
theorem visits_framed_of_within {p : Printer} {c : Call} (hroom : ¬ c.desk.page.isFull = true)
    {body : Print Unit} (hbody : body.Always (Page.Within 0)) (max : Option Int) (level : Int) :
    (Print.framed max level body).Visits c.desk (p.Bounded c) := by
  have hlt := depth_lt_of_room hroom
  refine Visits.framed ((hbody.visits _).mono ?_) hbody.keeps ?_
  · intro q hq
    rw [Desk.depth_framing] at hq
    exact .inl (by omega)
  · intro q hq
    exact .inl (by omega)

/-- On a page that is not full, a failure is bounded. -/
theorem visits_throw {p : Printer} {c : Call} (hroom : ¬ c.desk.page.isFull = true) (x : Failure) :
    (throw x : Print Unit).Visits c.desk (p.Bounded c) :=
  .of_nil rfl (.inl (Int.le_of_lt (depth_lt_of_room hroom)))

/-- On a page that is not full, what is done there is all that is done. -/
theorem visits_unlessFull {desk : Desk} (hroom : ¬ desk.page.isFull = true) {kind : Term.Kind}
    {body : Print Unit} {M : Page → Prop} (h : body.Visits desk M) :
    (do if (← Print.page).isFull then skip kind else body : Print Unit).Visits desk M := by
  show (if desk.page.isFull then skip kind else body).Visits desk M
  rwa [if_neg hroom]

/-- A call that begins where the calling one is bounded is bounded in that one: on a full page it
stays where it begins. -/
theorem visits_of_calls {p : Printer} {c c' : Call} (h : p.Calls c c')
    (hstart : p.Bounded c c'.desk.page)
    (hvisits : ¬ c'.desk.page.isFull = true → (p.answer c').Visits c'.desk (p.Bounded c')) :
    (p.answer c').Visits c'.desk (p.Bounded c) := by
  by_cases hfull : c'.desk.page.isFull = true
  · exact .of_nil (takes_answer_of_full hfull) hstart
  · exact (hvisits hfull).mono fun q hq => hq.of_calls h

/-- **Only binder lists go beyond the limit**: every moment of a call is bounded. -/
theorem term_visits (p : Printer) (context : List String) : (e : Term) → (max : Option Int) →
    {desk : Desk} → ¬ desk.page.isFull = true →
    (p.term context e max).Visits desk (p.Bounded ⟨context, e, max, desk⟩)
  | .var loc index, max, desk, hroom => by
    rw [term]
    refine visits_unlessFull hroom ?_
    cases nameAt? context index with
    | none => exact visits_throw (c := ⟨context, .var loc index, max, desk⟩) hroom _
    | some name =>
      exact visits_framed_of_within (c := ⟨context, .var loc index, max, desk⟩) hroom
        (within_text 0 name) max 0
  | .pending loc s body, max, desk, hroom => by
    rw [term]
    refine visits_unlessFull hroom ?_
    cases hforce : body.force s with
    | error x => exact visits_throw (c := ⟨context, .pending loc s body, max, desk⟩) hroom _
    | ok r =>
      have hcalls : p.Calls ⟨context, .pending loc s body, max, desk⟩ ⟨context, r, max, desk⟩ :=
        .head hroom hforce
      have hlt := depth_lt_of_room hroom
      exact visits_of_calls hcalls (.inl (Int.le_of_lt hlt)) (term_visits p context r max)
  | .lam loc hint body, max, desk, hroom => by
    let c : Call := ⟨context, .lam loc hint body, max, desk⟩
    have hlt := depth_lt_of_room hroom
    have hout (q : Page) (hq : q.depth ≤ desk.page.depth + 1) : p.Bounded c q :=
      .inl (show (q.depth : Int) ≤ desk.page.limit by omega)
    rw [term]
    refine visits_unlessFull hroom ?_
    cases hrun : body.run with
    | error x =>
      have hthrow : (throw x : Print Unit).Always (Page.Within 0) :=
        (Page.chained_within 0).untouched fun _ => rfl
      exact visits_framed_of_within (c := c) hroom hthrow max Level.lam
    | ok found =>
      obtain ⟨hints, inner⟩ := found
      have hbelow (context : List String) := Page.closed_keeps.term p context inner none
      refine Visits.framed ?_ (Page.closed_keeps.binders p context _ inner hbelow)
        fun q hq => hout q (by omega)
      refine Visits.bind (.of_nil (p.takes_chooseNames _ _ _ _) (hout _ ?_)) ?_
      · exact Nat.le_of_eq (Desk.depth_framing desk max Level.lam)
      intro chosen named hnames
      have hnamed : named.page.depth = desk.page.depth + 1 := by
        rw [page_of_chooseNames hnames, Desk.depth_framing]
      have hinside := Page.closed_keeps.bind (Page.closed_keeps.heading p chosen.reverse)
        fun _ => hbelow (chosen ++ context)
      refine Visits.framed ?_ hinside fun q hq => hout q (by omega)
      obtain ⟨marks, hlist, hwithin⟩ :=
        Page.closed_keeps.heading p chosen.reverse (named.framing none Level.lam)
      have hheading : (p.heading chosen.reverse).Visits (named.framing none Level.lam)
          (p.Bounded c) :=
        ⟨marks, hlist, fun before hbefore => .inr ⟨c, .refl, .mk hroom hrun hnames hlist hbefore⟩⟩
      refine hheading.bind ?_
      intro _ headed hheaded
      have hcalls : p.Calls c ⟨chosen ++ context, inner, none, headed⟩ :=
        .body hroom hrun hnames hheaded
      have hstart : p.Bounded c headed.page := by
        have hlast := hheading.last
        rwa [hheaded] at hlast
      exact visits_of_calls hcalls hstart (term_visits p (chosen ++ context) inner none)
  | .app loc fn arg, max, desk, hroom => by
    let c : Call := ⟨context, .app loc fn arg, max, desk⟩
    have hlt := depth_lt_of_room hroom
    have hout (q : Page) (hq : q.depth ≤ desk.page.depth + 1) : p.Bounded c q :=
      .inl (show (q.depth : Int) ≤ desk.page.limit by omega)
    have hopen : (desk.framing max Level.app).page.depth = desk.page.depth + 1 :=
      Desk.depth_framing desk max Level.app
    have hfnKeeps := Page.closed_keeps.term p context fn (some Level.app)
    have hargKeeps := Page.closed_keeps.term p context arg (some 0)
    have hinside := Page.closed_keeps.bind hfnKeeps fun _ =>
      Page.closed_keeps.bind Page.closed_keeps.printGap fun _ => hargKeeps
    rw [term]
    refine visits_unlessFull hroom (Visits.framed ?_ hinside fun q hq => hout q (by omega))
    have hfn : p.Calls c ⟨context, fn, some Level.app, desk.framing max Level.app⟩ := .fn hroom
    refine Visits.bind (visits_of_calls hfn (hout _ (Nat.le_of_eq hopen))
      (term_visits p context fn (some Level.app))) ?_
    intro _ between hbetween
    have hkept : between.page.depth = desk.page.depth + 1 :=
      (hfnKeeps.depth_eq hbetween).trans hopen
    refine Visits.bind (((within_gap 0).visits between).mono fun q hq => hout q (by omega)) ?_
    intro _ spaced hspaced
    have hspace : spaced.page.depth = desk.page.depth + 1 :=
      (Page.closed_keeps.printGap.depth_eq hspaced).trans hkept
    have harg : p.Calls c ⟨context, arg, some 0, spaced⟩ := .arg hroom hbetween hspaced
    exact visits_of_calls harg (hout _ (Nat.le_of_eq hspace)) (term_visits p context arg (some 0))
  | .unknown loc, max, desk, hroom => by
    rw [term]
    refine visits_unlessFull hroom ?_
    exact visits_throw (c := ⟨context, .unknown loc, max, desk⟩) hroom _
termination_by e => e.weight
decreasing_by
  · exact Term.weight_force_lt hforce loc
  · exact Term.weight_run_lt hrun loc hint
  · exact Term.weight_fn_lt loc fn arg
  · exact Term.weight_arg_lt loc fn arg

/-- Where more groups are open than the limit allows, a binder list is being put down, for an
abstraction that is reached on a page which is not full. -/
theorem Bounded.exists_lists {p : Printer} {c : Call} {q : Page} (h : p.Bounded c q)
    (hover : c.desk.page.limit < q.depth) :
    ∃ c', Relation.ReflTransGen p.Calls c c' ∧ p.Lists c' q ∧
      c'.desk.page.depth < c.desk.page.limit ∧ q.depth ≤ c'.desk.page.depth + 4 := by
  rcases h with h | ⟨c', hcalls, hlists⟩
  · exact absurd hover (Int.not_lt.2 h)
  · obtain ⟨hlt, hdeep⟩ := hlists.depth_le
    rw [limit_of_calls hcalls] at hlt
    exact ⟨c', hcalls, hlists, hlt, hdeep⟩

/-- **The depth of groups is bounded by the limit**, whatever the term, and also if printing fails.

* On a full page a term is left out: no group is opened, and nothing is put on the page.
* On any other page, at most three more groups are open at any moment than the limit allows. More
  groups than the limit allows are open only while a binder list is put down, for an abstraction
  that is reached on a page which is not full, and that adds at most four groups to those which are
  open when it is reached. So three more are open only if the abstraction is reached where just one
  more is allowed.
* What a call on the way takes down is a part of the whole, and on a full page it takes nothing
  down. -/
theorem term_depth_bounded (p : Printer) (context : List String) (e : Term) (max : Option Int)
    (desk : Desk) :
    let limit := desk.page.limit
    let call : Call := ⟨context, e, max, desk⟩
    let done := (p.term context e max).runAt desk
    (limit ≤ desk.page.depth →
      done = (.ok (), { desk with skips := desk.skips.push ⟨desk.page.depth, e.kind⟩ })) ∧
    ∃ marks, done.2.page = desk.page.follow marks ∧
      (desk.page.depth < limit → ∀ before, before <+: marks →
        let q := desk.page.follow before
        q.depth ≤ limit + 3 ∧
        (limit < q.depth → ∃ c, Relation.ReflTransGen p.Calls call c ∧ p.Lists c q ∧
          c.desk.page.depth < limit ∧ q.depth ≤ c.desk.page.depth + 4 ∧
          (q.depth = limit + 3 → c.desk.page.depth = limit - 1))) ∧
      ∀ c, Relation.ReflTransGen p.Calls call c → ∃ before inside after,
        marks = before ++ (inside ++ after) ∧ c.desk.page = desk.page.follow before ∧
        ((p.answer c).runAt c.desk).2.page = c.desk.page.follow inside ∧
        (limit ≤ c.desk.page.depth → inside = []) := by
  intro limit call done
  obtain ⟨marks, htakes, -⟩ := Page.closed_keeps.term p context e max desk
  refine ⟨fun hfull => p.runAt_term_of_full context e max (Page.isFull_iff.2 hfull), marks, htakes,
    ?_, ?_⟩
  · intro hroom before hbefore q
    have hopen : ¬ desk.page.isFull = true := by
      rw [Page.isFull_iff]
      exact Int.not_le.2 hroom
    obtain ⟨marks', htakes', hbounded⟩ := p.term_visits context e max hopen
    rw [htakes'.unique htakes] at hbounded
    have hq : p.Bounded call q := hbounded before hbefore
    refine ⟨?_, fun hover => ?_⟩
    · by_cases hover : limit < q.depth
      · obtain ⟨c, -, -, hlt, hdeep⟩ := hq.exists_lists hover
        have hlt : (c.desk.page.depth : Int) < limit := hlt
        omega
      · omega
    · obtain ⟨c, hcalls, hlists, hlt, hdeep⟩ := hq.exists_lists hover
      have hlt : (c.desk.page.depth : Int) < limit := hlt
      exact ⟨c, hcalls, hlists, hlt, hdeep, by omega⟩
  · intro c hcalls
    obtain ⟨inside, hinside, -⟩ := Page.closed_keeps.term p c.context c.term c.max c.desk
    obtain ⟨before, after, houter, hpage⟩ := includes_of_calls hcalls inside hinside
    refine ⟨before, inside, after, htakes.unique houter, hpage, hinside, fun hfull => ?_⟩
    have hlimit : c.desk.page.limit = limit := limit_of_calls hcalls
    rw [← hlimit] at hfull
    exact hinside.unique (takes_answer_of_full (Page.isFull_iff.2 hfull))

/-- The binder of the identity is used. -/
theorem nameBinders_identity (asked : List Name.Query) :
    ({} : Printer).nameBinders [] (.var none 0) asked [] ["x"] =
      ⟨[("x", [])], .ok [⟨"x", true⟩]⟩ := by
  have hused : (Term.var none 0).occurs (([] : List Binder).length : Int) = .ok true := by
    rw [List.length_nil, Int.natCast_zero, Term.occurs, Term.search_cons]
    rfl
  have hname : ({} : Printer).nameFor asked true ("x", []) = .ok "x" := rfl
  exact nameBinders_cons hused hname []

/-- The marks of the identity where its body is left out: four groups are open around the name of
the binder. -/
theorem takes_identity (limit : Int) (hroom : 0 < limit) (hfull : limit ≤ 2) :
    (({} : Printer).term [] (.lam none "x" (.var none 0)) none).Takes (.blank limit)
      [.enter "", .enter "", .text "λ ", .enter "", .enter "", .text "x", .leave, .leave,
        .text " .", .gap, .leave, .leave] := by
  have hrun : (Term.var none 0).run = .ok ([], .var none 0) := by rw [Term.run_eq]; rfl
  have htrace : ({} : Printer).trace [] (limit - 0) [] (.lam none "x" (.var none 0)) =
      .lam [("x", [])] [⟨"x", true⟩] (.hole .var) := by
    have hbelow : ({} : Printer).trace ["x"] (limit - 2) [("x", [])] (.var none 0) =
        .hole .var := by
      rw [trace, if_pos (by omega)]
      rfl
    rw [Int.sub_zero]
    exact trace_lam hroom hrun (nameBinders_identity []) hbelow none
  have hadds := ({} : Printer).term_traced [] (.lam none "x" (.var none 0)) none (.blank limit)
  obtain ⟨marks, htakes, -⟩ := Page.closed_keeps.term {} [] (.lam none "x" (.var none 0)) none
    (.blank limit)
  have hroom' : (Desk.blank limit).page.limit - (Desk.blank limit).page.depth = limit - 0 := rfl
  rw [hadds.marks_eq htakes, hroom', show (Desk.blank limit).requests.toList = [] from rfl,
    htrace] at htakes
  exact htakes

/-- With one group allowed, four are open around the name of a binder, while its body is reached
with two groups open and is left out. -/
theorem term_depth_bounded_attained :
    let p : Printer := {}
    let desk := Desk.blank 1
    let call : Call := ⟨[], .lam none "x" (.var none 0), none, desk⟩
    ∃ marks, (p.answer call).Takes desk marks ∧
      (∃ before, before <+: marks ∧ (desk.page.follow before).depth = 4 ∧
        ∃ c, Relation.ReflTransGen p.Calls call c ∧ p.Lists c (desk.page.follow before) ∧
          c.desk.page.depth = 0) ∧
      ∃ c, p.Calls call c ∧ c.term = .var none 0 ∧ c.desk.page.depth = 2 ∧
        (p.answer c).Takes c.desk [] := by
  intro p desk call
  have hrun : (Term.var none 0).run = .ok ([], .var none 0) := by rw [Term.run_eq]; rfl
  have hroom : ¬ desk.page.isFull = true := by decide
  let opened : List Mark := [.enter "", .enter "", .text "λ ", .enter "", .enter ""]
  have hidentity := takes_identity 1 (by decide) (by decide)
  obtain ⟨-, marks, htakes, hbound, hsilent⟩ := p.term_depth_bounded [] call.term none desk
  obtain rfl := hidentity.unique htakes
  obtain ⟨-, hlist⟩ := hbound (by decide) opened ⟨_, rfl⟩
  obtain ⟨c, hcalls, hlists, -, -, hentry⟩ := hlist (by decide)
  have hdepth := hentry (by decide)
  -- the body is reached at the desk that the binder list leaves
  have hnames := p.chooseNames_adds [] (.var none 0) [] ["x"] (desk.framing none Level.lam)
  simp only [p, nameBinders_identity] at hnames
  have hbody : p.Calls call ⟨["x"], .var none 0, none, _⟩ :=
    .body hroom hrun hnames (p.heading_adds ["x"] _)
  obtain ⟨before, inside, after, -, -, hpage, hnothing⟩ := hsilent _ (.single hbody)
  refine ⟨_, hidentity, ⟨opened, ⟨_, rfl⟩, by decide, c, hcalls, hlists, ?_⟩, _, hbody, rfl, ?_, ?_⟩
  · exact Int.ofNat_inj.1 hdepth
  · rfl
  · rwa [hnothing (by decide)] at hpage

/-- It is not so that only a list whose abstraction is reached where just one more group is allowed
goes beyond the limit. With two groups allowed, the list of the identity does, too, although its
abstraction is reached with none open. -/
theorem excess_not_only_of_last_level :
    ¬ ∀ (p : Printer) (context : List String) (e : Term) (max : Option Int) (desk : Desk)
      (marks before : List Mark), (p.term context e max).Takes desk marks → before <+: marks →
      desk.page.depth < desk.page.limit → desk.page.limit < (desk.page.follow before).depth →
      ∃ c, Relation.ReflTransGen p.Calls ⟨context, e, max, desk⟩ c ∧
        p.Lists c (desk.page.follow before) ∧ c.desk.page.depth = desk.page.limit - 1 := by
  intro h
  have hrun : (Term.var none 0).run = .ok ([], .var none 0) := by rw [Term.run_eq]; rfl
  let opened : List Mark := [.enter "", .enter "", .text "λ ", .enter "", .enter ""]
  obtain ⟨c, hcalls, hlists, hdepth⟩ := h {} [] (.lam none "x" (.var none 0)) none (.blank 2) _
    opened (takes_identity 2 (by decide) (by decide)) ⟨_, rfl⟩ (by decide) (by decide)
  rcases Relation.ReflTransGen.cases_head hcalls with rfl | ⟨c', hfirst, hrest⟩
  · -- the abstraction itself is reached with no group open
    exact absurd hdepth (by decide)
  · -- the only other call is for the variable below it
    cases hfirst with
    | body _ hrun' =>
      rw [hrun] at hrun'
      cases hrun'
      rcases Relation.ReflTransGen.cases_head hrest with rfl | ⟨c'', hnext, -⟩
      · cases hlists
      · cases hnext

end Printer

end Nameless
