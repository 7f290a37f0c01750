import Nameless.Text.Decimal
import Nameless.Text.Digit

/-!
# Numeric suffixes of names

A name has a suffix if it is a base, a run of decimal digits, and at most one final line feed,
where the base is not empty, holds no line feed and does not end in a digit. The line feed is not
part of either piece, and zeros in front of the suffix do not survive. Every other name, one of
digits only included, is its own base.
-/

namespace Nameless.Name

/-- A text read backwards, without its final line feed. -/
def dropNewline : List Char → List Char
  | '\n' :: rest => rest
  | chars => chars

/-- Takes a name apart into its base and the number that its suffix stands for. -/
def split (name : String) : Except DigitLimit (String × Option Nat) :=
  let backwards := dropNewline name.toList.reverse
  let digits := (backwards.takeWhile Digit.isDigit).reverse
  let base := (backwards.dropWhile Digit.isDigit).reverse
  if digits = [] ∨ base = [] ∨ '\n' ∈ base then .ok (name, none)
  else if digits.length > Decimal.limit then .error (.reading digits.length)
  else .ok (String.ofList base, some (Digit.number digits))

end Nameless.Name
