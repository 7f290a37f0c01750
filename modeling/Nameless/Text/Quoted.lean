/-!
# Quoted text in printable ASCII

A quoted text stands between double quotes and is escaped one UTF-8 byte at a time: the double
quote, the backslash and four control characters have escapes of their own, printable ASCII stands
for itself, and every other byte is a backslash and three decimal digits. So the result holds
printable ASCII only, whatever the text.
-/

namespace Nameless.Quoted

/-- A byte in three decimal digits. -/
def threeDigits (byte : UInt8) : List Char :=
  [Nat.digitChar (byte.toNat / 100), Nat.digitChar (byte.toNat / 10 % 10),
    Nat.digitChar (byte.toNat % 10)]

/-- The letter after the backslash, for the bytes that have one. -/
def named? (byte : UInt8) : Option Char :=
  if byte = 34 then some '"'
  else if byte = 92 then some '\\'
  else if byte = 10 then some 'n'
  else if byte = 9 then some 't'
  else if byte = 13 then some 'r'
  else if byte = 8 then some 'b'
  else none

/-- How one byte is written between the quotes. -/
def escape (byte : UInt8) : List Char :=
  match named? byte with
  | some letter => ['\\', letter]
  | none =>
    if 32 ≤ byte ∧ byte ≤ 126 then [Char.ofNat byte.toNat] else '\\' :: threeDigits byte

/-- The quoted form of a text. -/
def write (text : String) : String :=
  String.ofList ('"' :: (text.toUTF8.data.toList.flatMap escape ++ ['"']))

end Nameless.Quoted
