import Nameless.Fault
import Nameless.Name.Suffix

/-!
# Fresh names

A taken name is varied by counting its suffix up until the result is not taken: `x` becomes `x1`,
`x1` becomes `x2`, and so on. The search ends because every failed attempt uses up one of the taken
names.

Callers may vary names in a way of their own, and it can keep a state. So what it answers is taken
to be a function of all that it was asked before. That leaves out no run: no two requests of a run
come after the same ones, so there is such a function for any answers that are given in it.
-/

namespace Nameless.Name

/-- The list of names without one of them. -/
def strike (name : String) (taken : List String) : List String := taken.filter (· ≠ name)

/-- What is left on a list when a name is struck off. -/
@[simp] theorem mem_strike {name other : String} {taken : List String} :
    other ∈ strike name taken ↔ other ∈ taken ∧ other ≠ name := by
  simp [strike]

/-- Striking a member off shortens a list. -/
theorem length_strike_lt {name : String} {taken : List String} (h : name ∈ taken) :
    (strike name taken).length < taken.length :=
  List.length_filter_lt_length_iff_exists.2 ⟨name, h, by simp⟩

/-- The first of `base ++ counter`, `base ++ (counter + 1)`, … that is not taken. A candidate that
is taken is struck off: no later one is equal to it. -/
def firstUnused (base : String) (counter : Nat) (taken : List String) : Except DigitLimit String :=
  if Decimal.Writable counter then
    let candidate := base ++ Decimal.text counter
    if _h : candidate ∈ taken then
      firstUnused base (counter + 1) (strike candidate taken)
    else .ok candidate
  else .error .writing
termination_by taken.length
decreasing_by exact length_strike_lt _h

/-- A variant of a name that is not taken: the name itself if it is free, and otherwise the first
free name with the same base and a higher suffix. -/
def refresh (name : String) (taken : List String) : Except DigitLimit String :=
  if name ∈ taken then do
    match ← split name with
    | (base, none) => firstUnused base 1 taken
    | (base, some suffix) => firstUnused base (suffix + 1) taken
  else .ok name

/-- What is asked of a way to vary names: a name, and the names that its variant has to avoid. -/
abbrev Query := String × List String

/-- A way to vary a name so that it avoids the names that are taken. It is told what it was asked
before, in order, and it may fail. -/
abbrev Freshen := List Query → String → List String → Except Failure String

/-- Counting suffixes up, as a way to vary names. -/
def Freshen.counting : Freshen := fun _ name taken => (refresh name taken).mapError .digits

/-- What was asked before makes no difference to the answers. -/
def Freshen.Steady (f : Freshen) : Prop := ∀ asked asked' name taken,
  f asked name taken = f asked' name taken

/-- Counting looks at nothing but the name and the names that are taken. -/
theorem Freshen.counting_steady : counting.Steady := fun _ _ _ _ => rfl

end Nameless.Name
