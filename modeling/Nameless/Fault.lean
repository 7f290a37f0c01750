import Nameless.Term.Text

/-!
# What can go wrong

A `Fault` is a cause: it says what was asked for and why it is refused. Its wording, its kind, the
values it concerns and the span it points at are functions of the cause.

The wording of a fault shows numbers and terms, so it is subject to the bound on digits: a fault
that cannot be put into words gives way to the bound itself (`Failure.raise`).
-/

namespace Nameless

/-- The families of faults. -/
inductive Fault.Kind where
  /-- A fault of no narrower family. -/
  | general
  /-- A variable has no name. -/
  | lookup
  /-- A substitution cannot be carried out. -/
  | substitution
  /-- Output was not well bracketed. -/
  | layout
deriving DecidableEq, Repr

/-- The tag under which a family of faults is reported. -/
def Fault.Kind.tag : Fault.Kind → String
  | general => "Error"
  | lookup => "Name lookup error"
  | substitution => "Substitution error"
  | layout => "Formatter error"

/-- The causes of failure. -/
inductive Fault where
  /-- A variable of index `index` is printed where only `size` names are known. -/
  | nameless (index size : Int) (span : Option Span)
  /-- A shift sends the variable of index `index` to the negative index `shifted`. -/
  | negative (index shifted : Int) (span : Option Span)
  /-- The shift `inner` cannot be followed by `outer`. -/
  | incomposable (outer inner : Subst)
  /-- The inner part of a composition has no known shape. -/
  | unknownInner (inner : Subst)
  /-- A variable at `span` is looked up in a substitution of no known shape. -/
  | unknownSubst (subst : Subst) (span : Option Span)
  /-- A substitution is to be applied to a term of no known shape. -/
  | unforceable (term : Term)
  /-- A term of no known shape is searched for a variable. -/
  | uninspectable (term : Term)
  /-- A term of no known shape is to be printed. -/
  | unprintable (term : Term)
  /-- A group is closed when none is open. -/
  | noOpenGroup
  /-- A fault with a wording of its own, raised by a caller. -/
  | custom (kind : Fault.Kind) (text : String) (span : Option Span)
deriving DecidableEq

namespace Fault

/-- The family of a fault. -/
def kind : Fault → Kind
  | nameless .. => .lookup
  | negative .. | incomposable .. | unknownInner .. | unknownSubst .. | unforceable ..
  | uninspectable .. => .substitution
  | unprintable .. => .general
  | noOpenGroup => .layout
  | custom kind _ _ => kind

/-- The wording of a fault. -/
def message : Fault → String
  | nameless index size _ =>
    "Variable index " ++ Decimal.text index ++ " is outside a naming context of " ++
      Decimal.text size ++ " names"
  | negative index shifted _ =>
    "Shifting variable " ++ Decimal.text index ++ " produces negative index " ++
      Decimal.text shifted
  | incomposable outer inner => "Cannot compose " ++ outer.outline ++ " after " ++ inner.outline
  | unknownInner s | unknownSubst s _ => "Unknown substitution: " ++ s.outline
  | unforceable e => "Cannot force unknown expression: " ++ e.outline
  | uninspectable e => "Cannot inspect unknown expression: " ++ e.outline
  | unprintable e => "Cannot print unknown expression: " ++ e.outline
  | noOpenGroup => "Attempt to close a group when none is open"
  | custom _ text _ => text

/-- Every number in the wording of a fault can be written. -/
def writable : Fault → Bool
  | nameless index size _ => decide (Decimal.Writable index) && decide (Decimal.Writable size)
  | negative index shifted _ =>
    decide (Decimal.Writable index) && decide (Decimal.Writable shifted)
  | incomposable outer inner => outer.writable && inner.writable
  | unknownInner s | unknownSubst s _ => s.writable
  | unforceable e | uninspectable e | unprintable e => e.writable
  | noOpenGroup | custom .. => true

/-- The span that a fault points at. Only faults about a single variable know one. -/
def span : Fault → Option Span
  | nameless _ _ loc | negative _ _ loc | unknownSubst _ loc | custom _ _ loc => loc
  | _ => none

/-- A value that a fault concerns. -/
inductive Detail where
  | number (n : Int)
  | term (e : Term)
  | subst (s : Subst)
deriving DecidableEq

/-- The values that a fault concerns, each under its name. -/
def details : Fault → List (String × Detail)
  | nameless index size _ => [("index", .number index), ("context_size", .number size)]
  | negative index shifted _ => [("index", .number index), ("shifted", .number shifted)]
  | incomposable outer inner => [("outer", .subst outer), ("inner", .subst inner)]
  | unknownInner s => [("inner", .subst s)]
  | unknownSubst s _ => [("substitution", .subst s)]
  | unforceable e | uninspectable e | unprintable e => [("expr", .term e)]
  | noOpenGroup | custom .. => []

end Fault

/-- How an operation on terms, names or pages can fail. -/
inductive Failure where
  /-- The operation was refused. -/
  | fault (cause : Fault)
  /-- A number was too long to be written or read. -/
  | digits (bound : DigitLimit)
deriving DecidableEq

namespace Failure

/-- The failure for a cause: the cause itself, or the bound on digits if the wording of the cause
would exceed it. -/
def raise (cause : Fault) : Failure := if cause.writable then .fault cause else .digits .writing

/-- The wording of a failure. -/
def message : Failure → String
  | fault cause => cause.message
  | digits bound => bound.message

/-- Two steps in a row succeed exactly if the first one does, and the second one does with what the
first one gave. -/
theorem bind_eq_ok {α β : Type} {x : Except Failure α} {f : α → Except Failure β} {b : β} :
    x >>= f = .ok b ↔ ∃ a, x = .ok a ∧ f a = .ok b := by
  cases x with
  | error e => simp [bind, Except.bind]
  | ok a => simp [bind, Except.bind]

end Failure

end Nameless
