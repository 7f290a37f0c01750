import Nameless.Proofs.Occurrence
import Nameless.Term.Run

/-!
# A term and what it comes to

Whoever walks over a term exposes one node after the other. If everything in the term can be carried
out, such a walk finds the same nodes in the term and in what it comes to, where nothing is left to
be exposed. Indices may be negative here, and nodes of no known shape may occur.

* **Carrying out commutes with exposing** (`Term.forceAll_of_expose`), and keeps the shape of an
  exposed node (`Term.forceAll_lam_eq_ok`, `Term.forceAll_app_eq_ok`).
* **A run of abstractions is the same** (`Term.run_of_forceAll`): the same hints, above a body and
  above what that body comes to.
* **A search ends the same** (`Term.search_of_forceAll`, `Term.occurs_of_forceAll`), also where it
  fails at a node of no known shape.
-/

namespace Nameless.Term

/-- Carrying everything out goes on from what is exposed. -/
theorem forceAll_of_expose {e r : Term} (h : e.expose = .ok r) : e.forceAll = r.forceAll := by
  rw [forceAll_eq e, forceAll_eq r, h, expose_of_expose h]

/-- If everything can be carried out, the head can be exposed. -/
theorem exists_expose_of_forceAll {e f : Term} (h : e.forceAll = .ok f) :
    ∃ r, e.expose = .ok r ∧ r.forceAll = .ok f := by
  rw [forceAll_eq] at h
  obtain ⟨r, hr, -⟩ := Failure.bind_eq_ok.1 h
  refine ⟨r, hr, ?_⟩
  rw [← forceAll_of_expose hr, forceAll_eq]
  exact h

/-- Nothing is to be carried out in a variable. -/
@[simp] theorem forceAll_var (loc : Option Span) (k : Int) :
    (var loc k).forceAll = .ok (var loc k) := by
  rw [forceAll_eq]
  rfl

/-- Nothing is to be carried out in a node of no known shape. -/
@[simp] theorem forceAll_unknown (loc : Option Span) :
    (unknown loc).forceAll = .ok (unknown loc) := by
  rw [forceAll_eq]
  rfl

/-- Everything in an abstraction is carried out if everything in its body is. -/
theorem forceAll_lam_eq_ok {loc : Option Span} {hint : String} {body f : Term} :
    (lam loc hint body).forceAll = .ok f ↔
      ∃ body', body.forceAll = .ok body' ∧ f = lam loc hint body' := by
  rw [forceAll_eq]
  show (do let body ← body.forceAll; return lam loc hint body : Except Failure Term) = .ok f ↔ _
  simp only [Failure.bind_eq_ok, pure, Except.pure, Except.ok.injEq, eq_comm (b := f)]

/-- Everything in an application is carried out if everything in both parts is. -/
theorem forceAll_app_eq_ok {loc : Option Span} {fn arg f : Term} :
    (app loc fn arg).forceAll = .ok f ↔
      ∃ fn', fn.forceAll = .ok fn' ∧ ∃ arg', arg.forceAll = .ok arg' ∧ f = app loc fn' arg' := by
  rw [forceAll_eq]
  show (do let fn ← fn.forceAll; let arg ← arg.forceAll; return app loc fn arg :
    Except Failure Term) = .ok f ↔ _
  simp only [Failure.bind_eq_ok, pure, Except.pure, Except.ok.injEq, eq_comm (b := f)]

/-! ## Runs -/

/-- **A run of abstractions in a term is a run in what the term comes to.** -/
theorem run_of_forceAll {e f : Term} (h : e.forceAll = .ok f) :
    ∃ hints inner inner', e.run = .ok (hints, inner) ∧ inner.forceAll = .ok inner' ∧
      f.run = .ok (hints, inner') := by
  fun_induction Term.run e generalizing f with
  | case1 e x hx =>
    rw [forceAll_eq, hx] at h
    cases h
  | case2 e loc hint body hexp ih =>
    rw [forceAll_of_expose hexp, forceAll_lam_eq_ok] at h
    obtain ⟨body', hbody, rfl⟩ := h
    obtain ⟨hints, inner, inner', hrun, hinner, hrun'⟩ := ih hbody
    refine ⟨hint :: hints, inner, inner', ?_, hinner, ?_⟩
    · rw [hrun]
      rfl
    · exact run_lam hrun' loc hint
  | case3 e inner hlam hexp =>
    rw [forceAll_of_expose hexp] at h
    refine ⟨[], inner, f, rfl, h, ?_⟩
    -- what the body comes to is no abstraction either
    cases inner with
    | var loc k =>
      rw [forceAll_var] at h
      cases h
      rw [run_eq]
      rfl
    | lam loc hint body => exact absurd rfl (hlam loc hint body)
    | app loc fn arg =>
      obtain ⟨fn', -, arg', -, rfl⟩ := forceAll_app_eq_ok.1 h
      rw [run_eq]
      rfl
    | pending loc s body => exact absurd (isPending_expose hexp) (by simp [isPending])
    | unknown loc =>
      rw [forceAll_unknown] at h
      cases h
      rw [run_eq]
      rfl

/-! ## Searches -/

/-- An agenda, and the same with everything carried out in its nodes. -/
inductive Agenda.ComesTo : Agenda → Agenda → Prop where
  | nil : ComesTo [] []
  | cons {target : Int} {node node' : Term} {rest rest' : Agenda}
    (hnode : node.forceAll = .ok node') (hrest : ComesTo rest rest') :
    ComesTo ((target, node) :: rest) ((target, node') :: rest')

/-- **A search ends as it does with everything carried out.** -/
theorem search_of_forceAll {agenda agenda' : Agenda} (h : agenda.ComesTo agenda') :
    search agenda = search agenda' := by
  fun_induction search agenda generalizing agenda' with
  | case1 =>
    cases h
    rw [search]
  | case2 target node rest x hx =>
    cases h with
    | cons hnode hrest =>
      rw [forceAll_eq, hx] at hnode
      cases hnode
  | case3 node rest loc target hexp =>
    cases h with
    | cons hnode hrest =>
      rw [forceAll_of_expose hexp, forceAll_var] at hnode
      cases hnode
      rw [search_cons]
      exact (if_pos rfl).symm
  | case4 target node rest loc index hexp hne ih =>
    cases h with
    | cons hnode hrest =>
      rw [forceAll_of_expose hexp, forceAll_var] at hnode
      cases hnode
      rw [search_cons, ih hrest]
      exact (if_neg hne).symm
  | case5 target node rest loc hint body hexp ih =>
    cases h with
    | cons hnode hrest =>
      rw [forceAll_of_expose hexp, forceAll_lam_eq_ok] at hnode
      obtain ⟨body', hbody, rfl⟩ := hnode
      rw [ih (.cons hbody hrest), search_cons target]
      rfl
  | case6 target node rest loc fn arg hexp ih =>
    cases h with
    | cons hnode hrest =>
      rw [forceAll_of_expose hexp, forceAll_app_eq_ok] at hnode
      obtain ⟨fn', hfn, arg', harg, rfl⟩ := hnode
      rw [ih (.cons hfn (.cons harg hrest)), search_cons target (.app loc fn' arg')]
      rfl
  | case7 target node rest r hvar hlam happ hexp =>
    cases h with
    | cons hnode hrest =>
      obtain ⟨loc, rfl⟩ := exists_unknown_of_expose hexp hvar hlam happ
      rw [forceAll_of_expose hexp, forceAll_unknown] at hnode
      cases hnode
      rw [search_cons]
      rfl

/-- **An index is free in a term as it is in what the term comes to.** -/
theorem occurs_of_forceAll {e f : Term} (h : e.forceAll = .ok f) (k : Int) :
    e.occurs k = f.occurs k :=
  search_of_forceAll (.cons h .nil)

end Nameless.Term
