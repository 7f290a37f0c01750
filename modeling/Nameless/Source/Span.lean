/-!
# Source spans

A span is the stretch of source text that a node of a term was read from. Spans are carried along
by every operation on terms and are never looked at by any of them: they only show in diagnostics.
-/

namespace Nameless

/-- One point of a source text. Offsets count characters from the start of the text. -/
structure Position where
  /-- Name of the file, empty when the text did not come from a file. -/
  file : String
  /-- Number of the line, counted from one. -/
  line : Int
  /-- Offset at which that line starts. -/
  lineStart : Int
  /-- Offset of the point itself. -/
  offset : Int
deriving DecidableEq, Repr, Inhabited

/-- The source text between two points. -/
structure Span where
  start : Position
  stop : Position
deriving DecidableEq, Repr, Inhabited

end Nameless
