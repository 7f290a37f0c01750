/-!
# Whole numbers as decimal text

Numbers are written in plain decimal, with a minus sign when negative. Conversions between
numbers and decimal text are bounded: a number of more than `Decimal.limit` digits is never
written, and a run of more than that many digit characters is never read.
-/

namespace Nameless

/-- A conversion between a number and its decimal text met the bound on digits. -/
inductive DigitLimit where
  /-- A number has too many digits to be written. -/
  | writing
  /-- A text of `digits` digit characters is too long to be read as a number. -/
  | reading (digits : Nat)
deriving DecidableEq, Repr

namespace Decimal

/-- The largest number of digits that is written or read. -/
def limit : Nat := 4300

/-- A number can be written if it has at most `limit` digits; the sign does not count. -/
def Writable (n : Int) : Prop := n.natAbs < Nat.pow 10 limit

instance (n : Int) : Decidable (Writable n) := inferInstanceAs (Decidable (_ < _))

/-- A number of one digit can be written. -/
theorem writable_of_natAbs_lt {i : Int} (h : i.natAbs < 10) : Writable i := by
  have hlimit : limit ≠ 0 := by decide
  unfold Writable
  generalize limit = bound at hlimit ⊢
  exact Nat.lt_of_lt_of_le h (Nat.le_self_pow hlimit 10)

/-- The decimal text of a number. -/
def text (n : Int) : String :=
  if n < 0 then "-" ++ n.natAbs.repr else n.natAbs.repr

/-- The decimal text of a number, or the reason why it is not written. -/
def write (n : Int) : Except DigitLimit String :=
  if Writable n then .ok (text n) else .error .writing

end Decimal

/-- The wording of a digit bound that was met. -/
def DigitLimit.message : DigitLimit → String
  | writing => bound ++ remedy
  | reading digits => bound ++ ": value has " ++ Decimal.text digits ++ " digits" ++ remedy
where
  bound := "Exceeds the limit (" ++ Decimal.text Decimal.limit ++
    " digits) for integer string conversion"
  remedy := "; use sys.set_int_max_str_digits() to increase the limit"

end Nameless
