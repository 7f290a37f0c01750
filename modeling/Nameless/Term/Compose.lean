import Nameless.Fault

/-!
# Composition of substitutions

`outer.compose inner` is the substitution that does what `inner` does and then what `outer` does.
`e.defer s` puts the substitution `s` over the term `e` without carrying it out; two substitutions
that would wait one over the other are composed instead. The two operations call each other, and
both recurse on their second argument, whatever happens to the first.

A composition goes one call deeper for each entry of the inner substitution. The call stack is
idealised, here and everywhere else: no bound is set on how deep calls may go, so nothing fails
because a substitution is long or a term is deep.
-/

namespace Nameless

/-- The substitution that first shifts by an amount: a positive shift past the head of a dot drops
that head. A dot cannot follow a negative shift. -/
def Subst.afterShift : Subst → Int → Except Failure Subst
  | .shift m, n => .ok (.shift (m + n))
  | .dot head rest, n =>
    if n = 0 then .ok (.dot head rest)
    else if n < 0 then .error (.raise (.incomposable (.dot head rest) (.shift n)))
    else rest.afterShift (n - 1)
  | .unknown, n =>
    if n = 0 then .ok .unknown else .error (.raise (.incomposable .unknown (.shift n)))

mutual

/-- The substitution that applies `inner` first and `outer` second. -/
def Subst.compose (outer : Subst) : Subst → Except Failure Subst
  | .shift n => outer.afterShift n
  | .dot head rest => do
    let head ← Term.defer outer head
    let rest ← Subst.compose outer rest
    return .dot head rest
  | .unknown => .error (.raise (.unknownInner .unknown))
termination_by structural inner => inner

/-- Puts a substitution over a term, to be carried out when the term is looked at. The identity
leaves no trace, and a substitution over a pending one is merged with it. -/
def Term.defer (s : Subst) : Term → Except Failure Term
  | .pending loc t body =>
    if s.isIdentity then .ok (.pending loc t body)
    else do
      let merged ← Subst.compose s t
      return .pending loc merged body
  | e => .ok (if s.isIdentity then e else .pending e.span s e)
termination_by structural e => e

end

/-- Deferring the identity leaves no trace. -/
theorem Term.defer_identity (e : Term) : e.defer .identity = .ok e := by
  cases e with
  | pending loc s body => rfl
  | _ => rfl

/-- After the identity, a shift is as it was. -/
theorem Subst.identity_compose_shift (n : Int) :
    Subst.compose .identity (.shift n) = .ok (.shift n) := by
  simp [Subst.compose, Subst.identity, Subst.afterShift]

/-- After the identity, a dot keeps its head. -/
theorem Subst.identity_compose_dot (head : Term) {rest : Subst}
    (h : Subst.compose .identity rest = .ok rest) :
    Subst.compose .identity (.dot head rest) = .ok (.dot head rest) := by
  rw [Subst.compose, Term.defer_identity, h]
  rfl

namespace Term

/-- Shifts every free index by an amount. -/
def shift (amount : Int) (e : Term) : Except Failure Term := defer (.shift amount) e

/-- Replaces index `0` of the body of an abstraction by an argument. -/
def instantiate (body arg : Term) : Except Failure Term := defer (.dot arg .identity) body

end Term

end Nameless
