import Nameless.Text.Printable

/-!
# Text as a literal

The literal of a text stands between single quotes, or between double quotes when the text holds
a single quote and no double quote. The quote in use and the backslash are escaped, line feed,
tab and carriage return are written by name, and all other characters that are not printable by
their code. Printable characters stand for themselves.
-/

namespace Nameless.Literal

/-- The quote around a text: the double quote only if that saves an escape. -/
def quoteFor (text : List Char) : Char :=
  if '\'' ∈ text ∧ '"' ∉ text then '"' else '\''

/-- A code in hexadecimal, with zeros in front up to a number of digits. -/
def hex (places code : Nat) : List Char :=
  let digits := Nat.toDigits 16 code
  List.replicate (places - digits.length) '0' ++ digits

/-- A character by its code, in two, four or eight hexadecimal digits. -/
def byCode (c : Char) : List Char :=
  let code := c.toNat
  if code < 0x100 then '\\' :: 'x' :: hex 2 code
  else if code < 0x10000 then '\\' :: 'u' :: hex 4 code
  else '\\' :: 'U' :: hex 8 code

/-- How one character is written between quotes. -/
def escape (quote c : Char) : List Char :=
  if c = quote ∨ c = '\\' then ['\\', c]
  else if c = '\n' then ['\\', 'n']
  else if c = '\t' then ['\\', 't']
  else if c = '\r' then ['\\', 'r']
  else if Printable.isPrintable c then [c]
  else byCode c

/-- The literal of a text. -/
def write (text : String) : String :=
  let chars := text.toList
  let quote := quoteFor chars
  String.ofList (quote :: (chars.flatMap (escape quote) ++ [quote]))

/-- The same text in ASCII alone: every other character is written by its code. -/
def ascii (text : String) : String :=
  String.ofList (text.toList.flatMap fun c => if c.toNat < 0x80 then [c] else byCode c)

end Nameless.Literal
