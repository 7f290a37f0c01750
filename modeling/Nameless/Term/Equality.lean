import Nameless.Term.Basic

/-!
# Equality apart from spans

Where a term was read from does not count: two terms are the same if they differ in spans only.
Pending substitutions are compared as they stand, without carrying them out.
-/

namespace Nameless

mutual

/-- The term without its spans. -/
def Term.bare : Term → Term
  | .var _ index => .var none index
  | .lam _ hint body => .lam none hint body.bare
  | .app _ fn arg => .app none fn.bare arg.bare
  | .pending _ s body => .pending none s.bare body.bare
  | .unknown _ => .unknown none

/-- The substitution without the spans of its terms. -/
def Subst.bare : Subst → Subst
  | .shift amount => .shift amount
  | .dot head rest => .dot head.bare rest.bare
  | .unknown => .unknown

end

/-- Two terms that differ in spans only. -/
def Term.Same (a b : Term) : Prop := a.bare = b.bare

/-- Two substitutions that differ in spans only. -/
def Subst.Same (s t : Subst) : Prop := s.bare = t.bare

instance (a b : Term) : Decidable (a.Same b) := inferInstanceAs (Decidable (a.bare = b.bare))

instance (s t : Subst) : Decidable (s.Same t) := inferInstanceAs (Decidable (s.bare = t.bare))

mutual

/-- A term without spans has none to be taken away. -/
theorem Term.bare_bare : (e : Term) → e.bare.bare = e.bare
  | .var _ _ => rfl
  | .lam _ _ body => by simp [Term.bare, body.bare_bare]
  | .app _ fn arg => by simp [Term.bare, fn.bare_bare, arg.bare_bare]
  | .pending _ s body => by simp [Term.bare, s.bare_bare, body.bare_bare]
  | .unknown _ => rfl

/-- A substitution without spans has none to be taken away. -/
theorem Subst.bare_bare : (s : Subst) → s.bare.bare = s.bare
  | .shift _ => rfl
  | .dot head rest => by simp [Subst.bare, head.bare_bare, rest.bare_bare]
  | .unknown => rfl

end

end Nameless
