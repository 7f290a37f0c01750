import Nameless.Print.Term
import Nameless.Proofs.Record

/-!
# Two printing actions side by side

Two desks **look alike** if they have the same page and the same requests, and if the same number of
subterms was left out, at the same depths (`Desk.Alike`). What those subterms were does not count.

`Print.Parallel similar a b` says that the actions `a` and `b`, done at desks that look alike, leave
desks that look alike, and that both succeed with the same value, or both fail, with failures that
are `similar`. There is one rule for each way to build an action, so two actions of the same shape
are parallel as soon as their parts are. The rules for terms follow (`Printer.parallel_var`,
`Printer.parallel_lam`, `Printer.parallel_app`).

Binder lists are the one place where the parts may differ: hints of binders that are not used are
never looked at (`Term.HintsAgree`, `Printer.parallel_binders`).
-/

namespace Nameless

/-- Two desks that differ at most in what the subterms were that were left out. -/
structure Desk.Alike (desk desk' : Desk) : Prop where
  page : desk.page = desk'.page
  requests : desk.requests = desk'.requests
  depths : desk.skips.map Skip.depth = desk'.skips.map Skip.depth

/-- Every desk is like itself. -/
theorem Desk.Alike.refl (desk : Desk) : desk.Alike desk := ⟨rfl, rfl, rfl⟩

/-- Both outcomes are the same value, or similar failures. -/
inductive Failure.Agree (similar : Failure → Failure → Prop) {α : Type} :
    Except Failure α → Except Failure α → Prop where
  | ok (a : α) : Agree similar (.ok a) (.ok a)
  | error {x y : Failure} (h : similar x y) : Agree similar (.error x) (.error y)

/-- Every outcome agrees with itself. -/
theorem Failure.agree_refl {similar : Failure → Failure → Prop} [Std.Refl similar] {α : Type}
    (outcome : Except Failure α) : Agree similar outcome outcome := by
  cases outcome with
  | ok a => exact .ok a
  | error x => exact .error (Std.Refl.refl x)

instance : Std.Refl (@Eq Failure) := ⟨fun _ => rfl⟩

/-- With equality for similarity, outcomes agree if they are equal. -/
theorem Failure.Agree.eq {α : Type} {outcome outcome' : Except Failure α}
    (h : Agree Eq outcome outcome') : outcome = outcome' := by
  cases h with
  | ok a => rfl
  | error h => rw [h]

namespace Print

/-- Done at desks that look alike, the two actions have outcomes that agree, and leave desks that
look alike. -/
def Parallel (similar : Failure → Failure → Prop) {α : Type} (a b : Print α) : Prop :=
  ∀ desk desk' : Desk, desk.Alike desk' →
    Failure.Agree similar (a.runAt desk).1 (b.runAt desk').1 ∧
      (a.runAt desk).2.Alike (b.runAt desk').2

section

variable {similar : Failure → Failure → Prop} {α β : Type}

/-- The same answer is given on both sides. -/
theorem parallel_pure (v : α) : Parallel similar (pure v) (pure v) := by
  intro desk desk' h
  exact ⟨.ok v, h⟩

/-- Failures that are similar are parallel. -/
theorem parallel_throw {x y : Failure} (hxy : similar x y) :
    Parallel similar (throw x : Print α) (throw y) := by
  intro desk desk' h
  exact ⟨.error hxy, h⟩

/-- Both sides see the same page. -/
theorem parallel_page : Parallel similar page page := by
  intro desk desk' h
  refine ⟨?_, h⟩
  show Failure.Agree similar (.ok desk.page) (.ok desk'.page)
  rw [h.page]
  exact .ok _

/-- The same was asked for before. -/
theorem parallel_asked : Parallel similar asked asked := by
  intro desk desk' h
  refine ⟨?_, h⟩
  show Failure.Agree similar (.ok desk.requests.toList) (.ok desk'.requests.toList)
  rw [h.requests]
  exact .ok _

/-- The same is asked on both sides. -/
theorem parallel_ask (query : Name.Query) : Parallel similar (ask query) (ask query) := by
  intro desk desk' h
  refine ⟨.ok (), h.page, ?_, h.depths⟩
  show desk.requests.push query = desk'.requests.push query
  rw [h.requests]

/-- The same change of the page is parallel to itself. -/
theorem parallel_onPage (f : Page → Page) : Parallel similar (onPage f) (onPage f) := by
  intro desk desk' h
  exact ⟨.ok (), congrArg f h.page, h.requests, h.depths⟩

/-- A mark is taken down on both pages. -/
theorem parallel_note (mark : Mark) : Parallel similar (note mark) (note mark) :=
  parallel_onPage (·.note mark)

/-- The same text is printed on both sides. -/
theorem parallel_text (s : String) : Parallel similar (text s) (text s) := parallel_note _

/-- A break hint is printed on both sides. -/
theorem parallel_gap : Parallel similar gap gap := parallel_note _

/-- What is left out at the same depth may be anything. -/
theorem parallel_skip (kind kind' : Term.Kind) : Parallel similar (skip kind) (skip kind') := by
  intro desk desk' h
  refine ⟨.ok (), h.page, h.requests, ?_⟩
  show (desk.skips.push ⟨desk.page.depth, kind⟩).map Skip.depth =
    (desk'.skips.push ⟨desk'.page.depth, kind'⟩).map Skip.depth
  rw [Array.map_push, Array.map_push, h.depths, h.page]

/-- One action after the other. -/
theorem Parallel.bind {a b : Print α} (hab : Parallel similar a b) {f g : α → Print β}
    (hfg : ∀ v, Parallel similar (f v) (g v)) : Parallel similar (a >>= f) (b >>= g) := by
  intro desk desk' h
  obtain ⟨hagree, hleft⟩ := hab desk desk' h
  cases ha : a.runAt desk with
  | mk outcome next =>
    cases hb : b.runAt desk' with
    | mk outcome' next' =>
      rw [ha, hb] at hagree hleft
      cases hagree with
      | ok v =>
        rw [runAt_bind_ok ha, runAt_bind_ok hb]
        exact hfg v next next' hleft
      | error hxy =>
        rw [runAt_bind_error ha, runAt_bind_error hb]
        exact ⟨.error hxy, hleft⟩

/-- An action with another one to close it. -/
theorem Parallel.ensuring {a b : Print α} (hab : Parallel similar a b) {final final' : Print Unit}
    (hfinal : Parallel similar final final') :
    Parallel similar (ensuring a final) (ensuring b final') := by
  intro desk desk' h
  obtain ⟨hagree, hleft⟩ := hab desk desk' h
  cases ha : a.runAt desk with
  | mk outcome next =>
    cases hb : b.runAt desk' with
    | mk outcome' next' =>
      rw [ha, hb] at hagree hleft
      obtain ⟨hagree', hleft'⟩ := hfinal next next' hleft
      cases hc : final.runAt next with
      | mk closing last =>
        cases hd : final'.runAt next' with
        | mk closing' last' =>
          rw [hc, hd] at hagree' hleft'
          cases hagree' with
          | ok u =>
            rw [runAt_ensuring ha hc, runAt_ensuring hb hd]
            exact ⟨hagree, hleft'⟩
          | error hxy =>
            rw [runAt_ensuring_error ha hc, runAt_ensuring_error hb hd]
            exact ⟨.error hxy, hleft'⟩

/-- What is done between parentheses. -/
theorem Parallel.enclosed {a b : Print α} (hab : Parallel similar a b) :
    Parallel similar (enclosed a) (enclosed b) :=
  (parallel_note .opening).bind fun _ => hab.ensuring (parallel_note .closing)

/-- What is done on a page of its own. -/
theorem Parallel.apart {a b : Print Unit} (hab : Parallel similar a b) (limit : Int) :
    Parallel similar (apart limit a) (apart limit b) := by
  refine parallel_page.bind fun held => ?_
  refine (parallel_onPage fun _ => .blank limit).bind fun _ => ?_
  refine Parallel.ensuring ?_ (parallel_onPage fun _ => held)
  refine hab.bind fun _ => ?_
  exact parallel_page.bind fun _ => parallel_pure _

/-- What is done only if the page is not full. -/
theorem Parallel.unlessFull {a b : Print Unit} (hab : Parallel similar a b)
    (kind kind' : Term.Kind) :
    Parallel similar (do if (← page).isFull then skip kind else a)
      (do if (← page).isFull then skip kind' else b) := by
  refine parallel_page.bind fun held => ?_
  by_cases hfull : held.isFull = true
  · rw [if_pos hfull, if_pos hfull]
    exact parallel_skip kind kind'
  · rw [if_neg hfull, if_neg hfull]
    exact hab

variable [Std.Refl similar]

/-- Both sides close a group, or both find none to be closed. -/
theorem parallel_leave : Parallel similar leave leave := by
  refine parallel_page.bind fun held => ?_
  by_cases hempty : held.groups.isEmpty = true
  · rw [if_pos hempty]
    exact (parallel_note .refused).bind fun _ => parallel_throw (Std.Refl.refl _)
  · rw [if_neg hempty]
    exact parallel_note .leave

/-- Parallel actions stay parallel in a group. -/
theorem Parallel.inGroup {a b : Print α} (hab : Parallel similar a b) (name : String) :
    Parallel similar (inGroup name a) (inGroup name b) :=
  (parallel_note (.enter name)).bind fun _ => hab.ensuring parallel_leave

/-- Parallel actions stay parallel in a frame. -/
theorem Parallel.framed {a b : Print α} (hab : Parallel similar a b) (max : Option Int)
    (level : Int) : Parallel similar (framed max level a) (framed max level b) := by
  unfold Print.framed
  split
  · exact (hab.inGroup "").enclosed
  · exact hab.inGroup ""

/-- The same identifier is printed on both sides. -/
theorem parallel_ident (name : String) : Parallel similar (ident name) (ident name) :=
  (parallel_text name).framed none 0

/-- A list of actions, each of which is parallel to itself. -/
theorem parallel_sequence (separator : String) {items : List (Print Unit)}
    (h : ∀ item ∈ items, Parallel similar item item) :
    Parallel similar (sequence separator items) (sequence separator items) := by
  fun_induction sequence separator items with
  | case1 => exact parallel_pure ()
  | case2 last => exact (h last List.mem_cons_self).framed none 0
  | case3 item next rest ih =>
    have hitem := h item List.mem_cons_self
    have hrest := ih fun other hmem => h other (List.mem_cons_of_mem item hmem)
    refine Parallel.bind (Parallel.framed ?_ none 0) fun _ => hrest
    exact hitem.bind fun _ => (parallel_text separator).bind fun _ => parallel_gap

end

end Print

/-! ## Hints -/

/-- Two lists of hints for the binders around a body, innermost first, from the one with index `k`
on. They agree in every binder that the body is found to use. -/
inductive Term.HintsAgree (body : Term) : Nat → List String → List String → Prop where
  | nil {k : Nat} : HintsAgree body k [] []
  | cons {k : Nat} {hint hint' : String} {hints hints' : List String}
    (hhint : body.occurs k = .ok true → hint = hint')
    (hrest : HintsAgree body (k + 1) hints hints') :
    HintsAgree body k (hint :: hints) (hint' :: hints')

namespace Term.HintsAgree

/-- Hints agree with themselves. -/
theorem refl (body : Term) (k : Nat) (hints : List String) : body.HintsAgree k hints hints := by
  induction hints generalizing k with
  | nil => exact .nil
  | cons hint hints ih => exact .cons (fun _ => rfl) (ih (k + 1))

/-- One binder more, around the others. -/
theorem concat {body : Term} {k : Nat} {hints hints' : List String}
    (h : body.HintsAgree k hints hints') {hint hint' : String}
    (hhint : body.occurs (k + hints.length : Nat) = .ok true → hint = hint') :
    body.HintsAgree k (hints ++ [hint]) (hints' ++ [hint']) := by
  induction h with
  | nil => exact .cons hhint .nil
  | @cons k inner inner' hints hints' hinner _ ih =>
    refine .cons hinner (ih fun hfound => hhint ?_)
    rwa [List.length_cons, Nat.add_comm hints.length, ← Nat.add_assoc]

end Term.HintsAgree

namespace Printer

open Print

variable {similar : Failure → Failure → Prop} [Std.Refl similar] (p : Printer)

/-- The same request has the same answer, since the same was asked for before. -/
theorem parallel_fresh (hint : String) (taken : List String) :
    Parallel similar (p.fresh hint taken) (p.fresh hint taken) := by
  refine parallel_asked.bind fun asked => (parallel_ask _).bind fun _ => ?_
  split
  · exact parallel_pure _
  · exact parallel_throw (Std.Refl.refl _)

/-- Names are chosen alike for bodies in which the same variables are used, from hints that agree
where they are. A hint without a use is not even looked at. -/
theorem parallel_chooseNames {body body' : Term}
    (hocc : ∀ k : Nat, Failure.Agree similar (body.occurs k) (body'.occurs k))
    (context : List String) {chosen hints hints' : List String}
    (hhints : body.HintsAgree chosen.length hints hints') :
    Parallel similar (p.chooseNames context body chosen hints)
      (p.chooseNames context body' chosen hints') := by
  generalize hk : chosen.length = k at hhints
  induction hhints generalizing chosen with
  | nil => exact parallel_pure chosen
  | @cons k hint hint' hints hints' hhint _ ih =>
    have hagree := hocc k
    rw [chooseNames, chooseNames, hk]
    generalize body.occurs k = outcome at hagree hhint ⊢
    generalize body'.occurs k = outcome' at hagree ⊢
    have hnext (name : String) := @ih (chosen ++ [name]) (by simp [hk])
    cases hagree with
    | ok used =>
      cases used with
      | true =>
        obtain rfl := hhint rfl
        exact (p.parallel_fresh hint (context ++ chosen)).bind hnext
      | false => exact (parallel_pure p.style.placeholder).bind hnext
    | error hxy => exact (parallel_throw hxy).bind hnext

/-- A binder list is put down alike, up to what is below it. -/
theorem parallel_heading (names : List String) :
    Parallel similar (p.heading names) (p.heading names) := by
  have hnames : ∀ item ∈ names.map ident, Parallel similar item item := by
    intro item hitem
    obtain ⟨name, -, rfl⟩ := List.mem_map.1 hitem
    exact parallel_ident name
  refine (parallel_text _).bind fun _ => ?_
  refine (parallel_sequence "" hnames).bind fun _ => ?_
  exact (parallel_text _).bind fun _ => parallel_gap

/-- Binder lists over bodies in which the same variables are used, with hints that agree where they
are. -/
theorem parallel_binders {body body' : Term}
    (hocc : ∀ k : Nat, Failure.Agree similar (body.occurs k) (body'.occurs k))
    (context : List String) {hints hints' : List String}
    (hhints : body.HintsAgree 0 hints.reverse hints'.reverse)
    {inside inside' : List String → Print Unit}
    (hinside : ∀ context, Parallel similar (inside context) (inside' context)) :
    Parallel similar (p.binders context hints body inside)
      (p.binders context hints' body' inside') := by
  have hchoose : Parallel similar (p.chooseNames context body [] hints.reverse)
      (p.chooseNames context body' [] hints'.reverse) := p.parallel_chooseNames hocc context hhints
  refine hchoose.bind fun chosen => ?_
  refine Parallel.framed ?_ none Level.lam
  exact (p.parallel_heading chosen.reverse).bind fun _ => hinside (chosen ++ context)

/-! ## Terms -/

variable {loc loc' : Option Span} {context : List String}

/-- A variable is printed, or found to have no name, by looking at nothing but the page. -/
theorem parallel_var {k : Int} (h : similar (.raise (.nameless k context.length loc))
      (.raise (.nameless k context.length loc'))) (max : Option Int) :
    Parallel similar (p.term context (.var loc k) max) (p.term context (.var loc' k) max) := by
  rw [term, term]
  refine Parallel.unlessFull ?_ _ _
  split
  · exact (parallel_text _).framed max 0
  · exact parallel_throw h

/-- Two abstractions are printed side by side if what is below their runs is, the same variables are
used there, and the hints agree where they are. -/
theorem parallel_lam {body body' inner inner' : Term} {hint hint' : String}
    {hints hints' : List String} (hrun : body.run = .ok (hints, inner))
    (hrun' : body'.run = .ok (hints', inner'))
    (hocc : ∀ k : Nat, Failure.Agree similar (inner.occurs k) (inner'.occurs k))
    (hhints : inner.HintsAgree 0 (hint :: hints).reverse (hint' :: hints').reverse)
    (hinside : ∀ context, Parallel similar (p.term context inner none) (p.term context inner' none))
    (max : Option Int) :
    Parallel similar (p.term context (.lam loc hint body) max)
      (p.term context (.lam loc' hint' body') max) := by
  rw [term, term]
  refine Parallel.unlessFull (Parallel.framed ?_ max Level.lam) _ _
  rw [hrun, hrun']
  exact p.parallel_binders hocc context hhints hinside

/-- Two applications are printed side by side if their parts are. -/
theorem parallel_app {fn fn' arg arg' : Term}
    (hfn : Parallel similar (p.term context fn (some Level.app))
      (p.term context fn' (some Level.app)))
    (harg : Parallel similar (p.term context arg (some 0)) (p.term context arg' (some 0)))
    (max : Option Int) :
    Parallel similar (p.term context (.app loc fn arg) max)
      (p.term context (.app loc' fn' arg') max) := by
  rw [term, term]
  refine Parallel.unlessFull (Parallel.framed ?_ max Level.app) _ _
  exact hfn.bind fun _ => parallel_gap.bind fun _ => harg

end Printer

end Nameless
