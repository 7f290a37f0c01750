import Nameless.Term.Force

/-!
# Runs of abstractions

Abstractions nested directly in one another are printed as one, also where a pending substitution
stands between them. A run is found by exposing one body after the other.
-/

namespace Nameless.Term

/-- The hints of the abstractions at the head of a term, outermost first, and the exposed body
below the last of them. -/
def run (e : Term) : Except Failure (List String × Term) :=
  match _h : e.expose with
  | .error x => .error x
  | .ok (lam _ hint body) => do
    let (hints, inner) ← body.run
    return (hint :: hints, inner)
  | .ok inner => .ok ([], inner)
termination_by e.weight
decreasing_by
  have := weight_expose_le _h
  have := weight_body_lt (by assumption) hint body
  omega

/-- A run goes on from what is exposed. -/
theorem run_eq (e : Term) : e.run = e.expose >>= fun
    | lam _ hint body => do
      let (hints, inner) ← body.run
      return (hint :: hints, inner)
    | inner => .ok ([], inner) := by
  fun_cases Term.run e with
  | case1 x hx => rw [hx]; rfl
  | case2 loc hint body hexp => rw [hexp]; rfl
  | case3 inner hlam hexp =>
    rw [hexp]
    cases inner with
    | lam loc hint body => exact absurd rfl (hlam loc hint body)
    | _ => rfl

/-- An abstraction begins a run that goes on in its body. -/
theorem run_lam {body inner : Term} {hints : List String} (h : body.run = .ok (hints, inner))
    (loc : Option Span) (hint : String) :
    (lam loc hint body).run = .ok (hint :: hints, inner) := by
  rw [run_eq]
  show (body.run >>= _) = _
  rw [h]
  rfl

/-- What is below a run of abstractions weighs no more than the whole. -/
theorem weight_run_le {e inner : Term} {hints : List String} (h : e.run = .ok (hints, inner)) :
    inner.weight ≤ e.weight := by
  fun_induction Term.run e generalizing hints with
  | case1 => cases h
  | case2 e loc hint body hexp ih =>
    obtain ⟨found, hrun, h⟩ := Failure.bind_eq_ok.1 h
    cases h
    have := ih hrun
    have := weight_expose_le hexp
    have := weight_body_lt loc hint body
    omega
  | case3 e inner' _ hexp =>
    cases h
    exact weight_expose_le hexp

/-- What is below the run that an abstraction begins weighs less than the abstraction. -/
theorem weight_run_lt {body inner : Term} {hints : List String} (h : body.run = .ok (hints, inner))
    (loc : Option Span) (hint : String) : inner.weight < (lam loc hint body).weight := by
  have := weight_run_le h
  have := weight_body_lt loc hint body
  omega

end Nameless.Term
