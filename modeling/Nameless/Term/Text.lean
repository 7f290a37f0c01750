import Nameless.Term.Basic
import Nameless.Text.Decimal
import Nameless.Text.Literal

/-!
# The structural text of terms and substitutions

Diagnostics show a term or a substitution in full: every node by the name of its kind with all its
fields, the span first. A term is `Writable` if every number in that text, those of the spans
included, is short enough to be written.
-/

namespace Nameless

/-- The structural text of a position. -/
def Position.outline (p : Position) : String :=
  "DeBruijnSourcePosition(filename=" ++ Literal.write p.file ++ ", line=" ++ Decimal.text p.line ++
    ", line_start=" ++ Decimal.text p.lineStart ++ ", offset=" ++ Decimal.text p.offset ++ ")"

/-- The structural text of a span. -/
def Span.outline (s : Span) : String :=
  "DeBruijnLocation(begin=" ++ s.start.outline ++ ", end=" ++ s.stop.outline ++ ")"

/-- The structural text of a span that may be missing. -/
def Span.outline? : Option Span → String
  | none => "None"
  | some s => s.outline

/-- Every number of a position can be written. -/
def Position.writable (p : Position) : Bool :=
  decide (Decimal.Writable p.line) && decide (Decimal.Writable p.lineStart) &&
    decide (Decimal.Writable p.offset)

/-- Every number of a span can be written. -/
def Span.writable (s : Span) : Bool := s.start.writable && s.stop.writable

/-- Every number of a span that may be missing can be written. -/
def Span.writable? : Option Span → Bool
  | none => true
  | some s => s.writable

/-- The name of a node's kind in diagnostics. -/
def Term.Kind.name : Term.Kind → String
  | .var => "DeBruijnVar"
  | .lam => "DeBruijnLambda"
  | .app => "DeBruijnApp"
  | .pending => "DeBruijnSubst"
  | .unknown => "DeBruijnExpr"

mutual

/-- The structural text of a term. -/
def Term.outline : Term → String
  | .var loc index =>
    Term.Kind.var.name ++ "(location=" ++ Span.outline? loc ++ ", index=" ++
      Decimal.text index ++ ")"
  | .lam loc hint body =>
    Term.Kind.lam.name ++ "(location=" ++ Span.outline? loc ++ ", name=" ++
      Literal.write hint ++ ", body=" ++ body.outline ++ ")"
  | .app loc fn arg =>
    Term.Kind.app.name ++ "(location=" ++ Span.outline? loc ++ ", fn=" ++ fn.outline ++
      ", arg=" ++ arg.outline ++ ")"
  | .pending loc s body =>
    Term.Kind.pending.name ++ "(location=" ++ Span.outline? loc ++ ", substitution=" ++
      s.outline ++ ", body=" ++ body.outline ++ ")"
  | .unknown loc => Term.Kind.unknown.name ++ "(location=" ++ Span.outline? loc ++ ")"

/-- The structural text of a substitution. -/
def Subst.outline : Subst → String
  | .shift amount => "DeBruijnShift(amount=" ++ Decimal.text amount ++ ")"
  | .dot head rest => "DeBruijnDot(expr=" ++ head.outline ++ ", rest=" ++ rest.outline ++ ")"
  | .unknown => "DeBruijnSubstitution()"

end

mutual

/-- Every number in the structural text of a term can be written. -/
def Term.writable : Term → Bool
  | .var loc index => Span.writable? loc && decide (Decimal.Writable index)
  | .lam loc _ body => Span.writable? loc && body.writable
  | .app loc fn arg => Span.writable? loc && fn.writable && arg.writable
  | .pending loc s body => Span.writable? loc && s.writable && body.writable
  | .unknown loc => Span.writable? loc

/-- Every number in the structural text of a substitution can be written. -/
def Subst.writable : Subst → Bool
  | .shift amount => decide (Decimal.Writable amount)
  | .dot head rest => head.writable && rest.writable
  | .unknown => true

end

/-- The structural text of a term, or the bound that one of its numbers exceeds. -/
def Term.describe (e : Term) : Except DigitLimit String :=
  if e.writable then .ok e.outline else .error .writing

end Nameless
