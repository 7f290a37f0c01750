import Nameless.Source.Span
import Nameless.Text.Decimal
import Nameless.Text.Quoted

/-!
# Spans as text for diagnostics

Both columns are measured from the start of the line on which the span begins, so the last column
of a span over several lines may exceed the length of its first line. The file of the end point
is not shown. Lines of a text without a file are reported one lower.
-/

namespace Nameless.Span

/-- Column at which the span begins. -/
def firstColumn (s : Span) : Int := s.start.offset - s.start.lineStart

/-- Column at which the span ends, measured on the line on which it begins. -/
def lastColumn (s : Span) : Int := s.stop.offset - s.start.lineStart

/-- The line number that is shown. -/
def shownLine (s : Span) : Int := if s.start.file = "" then s.start.line - 1 else s.start.line

/-- The numbers that the text of the span shows. -/
def numbers (s : Span) : List Int := [s.shownLine, s.firstColumn, s.lastColumn]

/-- The text of a span. -/
def text (s : Span) : String :=
  let place := "line " ++ Decimal.text s.shownLine ++ ", characters " ++
    Decimal.text s.firstColumn ++ "-" ++ Decimal.text s.lastColumn
  if s.start.file = "" then place else "file " ++ Quoted.write s.start.file ++ ", " ++ place

/-- The text of a span that may be missing, or the bound that one of its numbers exceeds. -/
def describe : Option Span → Except DigitLimit String
  | none => .ok "unknown position"
  | some s => if ∀ n ∈ s.numbers, Decimal.Writable n then .ok s.text else .error .writing

end Nameless.Span
