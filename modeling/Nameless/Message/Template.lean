import Nameless.Text.Digit

/-!
# Templates

The body of a message is a template: text with directives that are filled in from arguments. A
directive is a percent sign, any number of flags, a width, a point and a precision, a length letter
that means nothing, and the letter of a conversion. All but the percent sign and the letter may be
missing. Width and precision are digits or a star, which takes the amount from the arguments; a
point alone means precision zero. Two percent signs in a row are one literal percent sign.

`parse` finds the pieces of a template. It accepts every text: a template that ends inside a
directive has a last directive without conversion.
-/

namespace Nameless.Template

/-- The flags of a directive. -/
structure Flags where
  /-- `-`: padding goes to the right. -/
  left : Bool := false
  /-- `+`: a number that is not negative gets a plus sign. -/
  plus : Bool := false
  /-- A blank: a number that is not negative gets a blank for a sign. -/
  blank : Bool := false
  /-- `#`: hexadecimal and octal numbers show their base. -/
  base : Bool := false
  /-- `0`: numbers are padded with zeros after the sign and the base. -/
  zero : Bool := false
deriving DecidableEq, Repr

/-- The characters that are flags. -/
def isFlag (c : Char) : Bool := c ∈ ['-', '+', ' ', '#', '0']

/-- The flags that a run of flag characters sets. -/
def Flags.ofChars (cs : List Char) : Flags :=
  { left := '-' ∈ cs, plus := '+' ∈ cs, blank := ' ' ∈ cs, base := '#' ∈ cs, zero := '0' ∈ cs }

/-- A width or a precision. -/
inductive Amount where
  /-- Written in the template. -/
  | given (n : Nat)
  /-- Taken from the arguments. -/
  | argument
deriving DecidableEq, Repr

/-- A directive. -/
structure Directive where
  flags : Flags := {}
  width : Option Amount := none
  precision : Option Amount := none
  /-- The letter of the conversion and its place in the template; missing if the template ends
  before it. -/
  conversion : Option (Char × Nat) := none
deriving DecidableEq, Repr

/-- The pieces of a template. -/
inductive Piece where
  /-- A character that stands for itself. -/
  | literal (c : Char)
  /-- A directive that names its argument, which no argument list can serve. -/
  | keyed
  /-- A directive that takes the next arguments. -/
  | directive (d : Directive)
deriving DecidableEq, Repr

/-- Reads a width or a precision off the front of a text. -/
def readAmount : List Char → Option Amount × List Char
  | '*' :: rest => (some .argument, rest)
  | cs =>
    match cs.takeWhile Char.isDigit with
    | [] => (none, cs)
    | digits => (some (.given (Digit.number digits)), cs.dropWhile Char.isDigit)

/-- Reads a point and a precision off the front of a text. -/
def readPrecision : List Char → Option Amount × List Char
  | '.' :: rest => (some ((readAmount rest).1.getD (.given 0)), (readAmount rest).2)
  | cs => (none, cs)

/-- Passes over a length letter. -/
def skipLength : List Char → List Char
  | 'h' :: rest | 'l' :: rest | 'L' :: rest => rest
  | cs => cs

/-- Reads what follows the percent sign of a directive in a template of `size` characters. -/
def readDirective (size : Nat) (cs : List Char) : Directive × List Char :=
  let afterFlags := cs.dropWhile isFlag
  let (width, afterWidth) := readAmount afterFlags
  let (precision, afterPrecision) := readPrecision afterWidth
  let d : Directive := { flags := .ofChars (cs.takeWhile isFlag), width, precision }
  match skipLength afterPrecision with
  | [] => (d, [])
  | letter :: rest => ({ d with conversion := some (letter, size - rest.length - 1) }, rest)

/-- Dropping from the front makes no list longer. -/
theorem length_dropWhile_le {p : Char → Bool} (cs : List Char) :
    (cs.dropWhile p).length ≤ cs.length :=
  (List.dropWhile_suffix p).length_le

/-- An amount is read off the front. -/
theorem length_readAmount_le (cs : List Char) : (readAmount cs).2.length ≤ cs.length := by
  unfold readAmount
  split
  · simp
  · split
    · exact Nat.le_refl _
    · exact length_dropWhile_le _

/-- A precision is read off the front. -/
theorem length_readPrecision_le (cs : List Char) : (readPrecision cs).2.length ≤ cs.length := by
  unfold readPrecision
  split
  · rename_i rest
    have := length_readAmount_le rest
    simp only [List.length_cons]
    omega
  · exact Nat.le_refl _

/-- A length letter is passed over at the front. -/
theorem length_skipLength_le (cs : List Char) : (skipLength cs).length ≤ cs.length := by
  unfold skipLength
  split <;> simp

/-- A directive is read off the front: what is left is no longer than what was there. -/
theorem length_readDirective_le (size : Nat) (cs : List Char) :
    (readDirective size cs).2.length ≤ cs.length := by
  have h₁ : (cs.dropWhile isFlag).length ≤ cs.length := length_dropWhile_le cs
  have h₂ := length_readAmount_le (cs.dropWhile isFlag)
  have h₃ := length_readPrecision_le (readAmount (cs.dropWhile isFlag)).2
  have h₄ := length_skipLength_le (readPrecision (readAmount (cs.dropWhile isFlag)).2).2
  simp only [readDirective]
  split
  · simp
  · rename_i letter rest h
    rw [h, List.length_cons] at h₄
    simp only
    omega

/-- The pieces of the rest of a template of `size` characters. -/
def pieces (size : Nat) (cs : List Char) : List Piece :=
  match cs with
  | [] => []
  | '%' :: '%' :: rest => .literal '%' :: pieces size rest
  | '%' :: '(' :: _ => [.keyed]
  | '%' :: rest => .directive (readDirective size rest).1 :: pieces size (readDirective size rest).2
  | c :: rest => .literal c :: pieces size rest
termination_by cs.length
decreasing_by
  · simp only [List.length_cons]
    omega
  · have := length_readDirective_le size rest
    simp only [List.length_cons]
    omega
  · simp

/-- The pieces of a template. -/
def parse (template : String) : List Piece := pieces template.length template.toList

end Nameless.Template
