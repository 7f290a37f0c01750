import Nameless.Message.Template
import Nameless.Term.Text

/-!
# Filling a template in

Directives take arguments from left to right, and every argument has to be taken. The first thing
that goes wrong decides the outcome: width and precision come before the conversion, and an
argument is taken before its conversion is looked at.
-/

namespace Nameless.Template

/-- An argument of a message. -/
inductive Arg where
  | text (s : String)
  | number (n : Int)
  | flag (b : Bool)
  | nothing
  | term (e : Term)

/-- What is wrong with a template or its arguments. -/
inductive Error where
  /-- A number is too long to be written. -/
  | digits (bound : DigitLimit)
  /-- The template ends inside a directive. -/
  | incomplete
  /-- A directive names its argument. -/
  | keyed
  /-- There are fewer arguments than the template takes. -/
  | missing
  /-- There are more arguments than the template takes. -/
  | unused
  /-- The argument for a star is not a number. -/
  | starType
  /-- A width or a precision that is written in the template is out of range. -/
  | givenWidth | givenPrecision
  /-- A width or a precision that is taken from the arguments is out of range. -/
  | starWidth | starPrecision
  /-- A number is to have more digits than a text can hold. -/
  | minimumDigits
  /-- A conversion for numbers meets an argument of another type. -/
  | numberType (conversion : Char) (type : String)
  /-- The argument for a character is neither a number nor a text of one character. -/
  | charType
  /-- The number for a character is not a code point. -/
  | charRange
  /-- There is no conversion of that letter. -/
  | conversion (letter : Char) (place : Nat)
deriving DecidableEq

namespace Arg

/-- The name of an argument's type. -/
def type : Arg → String
  | text _ => "str"
  | number _ => "int"
  | flag _ => "bool"
  | nothing => "NoneType"
  | term e => e.kind.name

/-- The number that an argument stands for; a truth value counts as `0` or `1`. -/
def toNumber? : Arg → Option Int
  | number n => some n
  | flag b => some (if b then 1 else 0)
  | _ => none

/-- An argument in words: a text as a literal, everything else as it is shown. -/
def literal : Arg → Except Error String
  | text s => .ok (Literal.write s)
  | number n => (Decimal.write n).mapError .digits
  | flag b => .ok (if b then "True" else "False")
  | nothing => .ok "None"
  | term e => e.describe.mapError .digits

/-- An argument as it is shown. -/
def shown : Arg → Except Error String
  | text s => .ok s
  | a => a.literal

end Arg

/-- The largest width, the last number of 63 binary digits. -/
def maxWidth : Nat := 0x7fffffffffffffff

/-- The largest precision, the last number of 31 binary digits. -/
def maxPrecision : Nat := 0x7fffffff

/-- The letters of the conversions that write whole numbers in decimal. -/
def isDecimal (letter : Char) : Bool := letter ∈ ['d', 'i', 'u']

/-- The letters of the conversions that write whole numbers in another base. -/
def isBased (letter : Char) : Bool := letter ∈ ['x', 'X', 'o']

/-- The wording of what is wrong. -/
def Error.message : Error → String
  | digits bound => bound.message
  | incomplete => "incomplete format"
  | keyed => "format requires a mapping"
  | missing => "not enough arguments for format string"
  | unused => "not all arguments converted during string formatting"
  | starType => "* wants int"
  | givenWidth => "width too big"
  | givenPrecision => "precision too big"
  | starWidth => "Python int too large to convert to C ssize_t"
  | starPrecision => "Python int too large to convert to C int"
  | minimumDigits => "precision too large"
  | numberType letter type =>
    let wanted := if isBased letter then "an integer" else "a real number"
    "%" ++ String.singleton letter ++ " format: " ++ wanted ++ " is required, not " ++ type
  | charType => "%c requires int or char"
  | charRange => "%c arg not in range(0x110000)"
  | conversion letter place =>
    let shown := if 31 ≤ letter.toNat ∧ letter.toNat ≤ 126 then letter else '?'
    "unsupported format character '" ++ String.singleton shown ++ "' (0x" ++
      String.ofList (Nat.toDigits 16 letter.toNat) ++ ") at index " ++ Decimal.text place

/-- Takes the next argument. -/
def next : List Arg → Except Error (Arg × List Arg)
  | [] => .error .missing
  | a :: args => .ok (a, args)

/-- Takes the next argument as the amount for a star. -/
def nextAmount (args : List Arg) : Except Error (Int × List Arg) := do
  let (a, args) ← next args
  match a.toNumber? with
  | none => .error .starType
  | some n => return (n, args)

/-- The width of a directive and whether it asks for padding to the right, as a negative width from
the arguments does. -/
def width (d : Directive) (args : List Arg) : Except Error (Nat × Bool × List Arg) :=
  match d.width with
  | none => .ok (0, d.flags.left, args)
  | some (.given n) => if n ≤ maxWidth then .ok (n, d.flags.left, args) else .error .givenWidth
  | some .argument => do
    let (n, args) ← nextAmount args
    if n ≤ maxWidth ∧ -(maxWidth : Int) - 1 ≤ n then
      return (n.natAbs, d.flags.left || decide (n < 0), args)
    else .error .starWidth

/-- The precision of a directive, if it has one. A negative one from the arguments is zero. -/
def precision (d : Directive) (args : List Arg) : Except Error (Option Nat × List Arg) :=
  match d.precision with
  | none => .ok (none, args)
  | some (.given n) => if n ≤ maxPrecision then .ok (some n, args) else .error .givenPrecision
  | some .argument => do
    let (n, args) ← nextAmount args
    if n ≤ maxPrecision ∧ -(maxPrecision : Int) - 1 ≤ n then return (some n.toNat, args)
    else .error .starPrecision

/-- Pads to a width with blanks, on the right or on the left. -/
def pad (width : Nat) (left : Bool) (cs : List Char) : List Char :=
  let filling := List.replicate (width - cs.length) ' '
  if left then cs ++ filling else filling ++ cs

/-- A text in a field: cut to a precision, then padded to a width. -/
def fieldText (width : Nat) (left : Bool) (precision : Option Nat) (s : String) : List Char :=
  pad width left (match precision with
    | none => s.toList
    | some n => s.toList.take n)

/-- The digits of a number in the base of a conversion. -/
def magnitude (letter : Char) (n : Int) : Except Error (List Char) :=
  if isDecimal letter then
    if Decimal.Writable n then .ok n.natAbs.repr.toList else .error (.digits .writing)
  else if letter = 'o' then .ok (Nat.toDigits 8 n.natAbs)
  else if letter = 'X' then .ok ((Nat.toDigits 16 n.natAbs).map Char.toUpper)
  else .ok (Nat.toDigits 16 n.natAbs)

/-- The sign of a number. -/
def sign (flags : Flags) (n : Int) : List Char :=
  if n < 0 then ['-'] else if flags.plus then ['+'] else if flags.blank then [' '] else []

/-- A number in a field: sign, base, digits filled up with zeros to a precision, and padding to a
width. Zeros for padding stand between the base and the digits. -/
def fieldNumber (flags : Flags) (width : Nat) (left : Bool) (precision : Option Nat)
    (letter : Char) (n : Int) : Except Error (List Char) := do
  if maxPrecision - 3 < precision.getD 0 then .error .minimumDigits
  let digits ← magnitude letter n
  let digits := List.replicate (precision.getD 0 - digits.length) '0' ++ digits
  let lead := sign flags n ++ if flags.base && isBased letter then ['0', letter] else []
  if flags.zero && !left then
    return lead ++ List.replicate (width - lead.length - digits.length) '0' ++ digits
  else return pad width left (lead ++ digits)

/-- The character that an argument stands for. -/
def character : Arg → Except Error Char
  | .text s => match s.toList with
    | [c] => .ok c
    | _ => .error .charType
  | a => match a.toNumber? with
    | none => .error .charType
    | some n => if 0 ≤ n ∧ n < 0x110000 then .ok (Char.ofNat n.toNat) else .error .charRange

/-- What a conversion makes of its argument. -/
def convert (flags : Flags) (width : Nat) (left : Bool) (precision : Option Nat) (letter : Char)
    (place : Nat) (a : Arg) : Except Error (List Char) :=
  if letter = 's' then return fieldText width left precision (← a.shown)
  else if letter = 'r' then return fieldText width left precision (← a.literal)
  else if letter = 'a' then return fieldText width left precision (Literal.ascii (← a.literal))
  else if letter = 'c' then return pad width left [← character a]
  else if isDecimal letter || isBased letter then
    match a.toNumber? with
    | none => .error (.numberType letter a.type)
    | some n => fieldNumber flags width left precision letter n
  else .error (.conversion letter place)

/-- Fills one directive in: its text, and the arguments that are left. -/
def fill (d : Directive) (args : List Arg) : Except Error (List Char × List Arg) := do
  let (width, left, args) ← width d args
  let (precision, args) ← precision d args
  match d.conversion with
  | none => .error .incomplete
  | some (letter, place) =>
    let (a, args) ← next args
    return (← convert d.flags width left precision letter place a, args)

/-- Fills the pieces of a template in: their text, and the arguments that are left. -/
def fillAll : List Piece → List Arg → Except Error (List Char × List Arg)
  | [], args => .ok ([], args)
  | .literal c :: rest, args => do
    let (cs, args) ← fillAll rest args
    return (c :: cs, args)
  | .keyed :: _, _ => .error .keyed
  | .directive d :: rest, args => do
    let (cs, args) ← fill d args
    let (more, args) ← fillAll rest args
    return (cs ++ more, args)

/-- The text of a template with its arguments. -/
def fillIn (template : String) (args : List Arg) : Except Error String := do
  match ← fillAll (parse template) args with
  | (cs, []) => return String.ofList cs
  | (_, _ :: _) => .error .unused

/-- A way to fill templates in: what a text is as an argument, and what a template comes to with its
arguments. -/
structure Filling (Arg Err : Type) where
  ofText : String → Arg
  fill : String → List Arg → Except Err String

/-- The filling by directives. -/
def standard : Filling Arg Error := ⟨.text, fillIn⟩

/-- The body of a message. Without arguments a template is its own text, percent signs included. -/
def Filling.body {Arg Err : Type} (F : Filling Arg Err) (template : String) (args : List Arg) :
    Except Err String :=
  if args.isEmpty then .ok template else F.fill template args

end Nameless.Template
