import Nameless.Source.Span

/-!
# Nameless terms and substitutions

Variables are numbers: index `0` refers to the nearest enclosing abstraction, `1` to the one
outside it, and so on. An abstraction keeps the name that was written for its variable, but only
as a hint for printing.

Substitutions are not carried out at once. A term may be **pending**: a substitution that waits
to be applied to a body. Terms and substitutions are therefore one mutual family.

Indices and shift amounts are integers. Nothing in the data forbids a negative one, and the
operations say what they do with it. Both types also have an `unknown` form, a node of no known
shape that every operation has to reject or pass by.
-/

namespace Nameless

mutual

/-- Terms. Every node carries the span it was read from, if there is one. -/
inductive Term where
  /-- A variable, by index. -/
  | var (span : Option Span) (index : Int)
  /-- An abstraction; it binds index `0` in its body. -/
  | lam (span : Option Span) (hint : String) (body : Term)
  /-- An application. -/
  | app (span : Option Span) (fn arg : Term)
  /-- A substitution that waits to be applied to a body. -/
  | pending (span : Option Span) (subst : Subst) (body : Term)
  /-- A node of no known shape. -/
  | unknown (span : Option Span)

/-- Explicit substitutions, from indices to terms. -/
inductive Subst where
  /-- Sends `k` to `k + amount`. -/
  | shift (amount : Int)
  /-- Sends `0` to `head`, and `k + 1` to what `rest` sends `k` to. -/
  | dot (head : Term) (rest : Subst)
  /-- A substitution of no known shape. -/
  | unknown

end

deriving instance DecidableEq for Term, Subst
deriving instance Inhabited for Term
deriving instance Inhabited for Subst

namespace Subst

/-- The identity is the shift by zero. -/
def identity : Subst := .shift 0

/-- Recognises the identity by its shape: only the shift by zero counts. -/
def isIdentity : Subst → Bool
  | shift amount => amount == 0
  | _ => false

/-- A shift is the identity if it shifts by nothing. -/
@[simp] theorem isIdentity_shift (n : Int) : (shift n).isIdentity = true ↔ n = 0 := by
  simp [isIdentity]

/-- A dot is never taken for the identity. -/
@[simp] theorem isIdentity_dot (e : Term) (r : Subst) : (dot e r).isIdentity = false := rfl

/-- A substitution of no known shape is never taken for the identity. -/
@[simp] theorem isIdentity_unknown : unknown.isIdentity = false := rfl

/-- Only one substitution is taken for the identity. -/
theorem isIdentity_iff {s : Subst} : s.isIdentity = true ↔ s = identity := by
  cases s <;> simp [isIdentity, identity]

end Subst

namespace Term

/-- The span of a term's root. -/
def span : Term → Option Span
  | var loc _ | lam loc _ _ | app loc _ _ | pending loc _ _ | unknown loc => loc

/-- Whether the root is a pending substitution. -/
def isPending : Term → Bool
  | pending .. => true
  | _ => false

/-- The kinds of nodes, for reports that name a node without showing it. -/
inductive Kind where
  | var | lam | app | pending | unknown
deriving DecidableEq, Repr

/-- The kind of a term's root. -/
def kind : Term → Kind
  | var .. => .var
  | lam .. => .lam
  | app .. => .app
  | pending .. => .pending
  | unknown .. => .unknown

end Term

end Nameless
