import Nameless.Message.Format
import Nameless.Page.Basic
import Nameless.Source.Text

/-!
# Messages

A message has a tag, a severity, a template with arguments for its body, and the span it is about.
It is shown if its severity is within the verbosity in force; severity `1` is the most severe.

The body is made first, whether or not the message is shown, so a template that does not fit its
arguments is always noticed. A message that is shown is one write of its whole text, and a flush.
One that is not shown goes to a log, which puts it into words only when it is read, so that cannot
fail.
-/

namespace Nameless

/-- A message, with arguments of some type for its template. -/
structure Message (Arg : Type := Template.Arg) where
  /-- What stands at the start of the text. -/
  tag : String
  severity : Int
  template : String
  args : List Arg := []
  /-- The source text that the message is about, if it is known. -/
  span : Option Span := none

namespace Message

/-- The severity of errors. -/
def errorSeverity : Int := 1

/-- The severity of warnings. -/
def warningSeverity : Int := 2

/-- The severity of debugging output. -/
def debugSeverity : Int := 3

section

variable {Arg Err : Type} (F : Template.Filling Arg Err)

/-- An error of some kind. Its text is an argument, so that it is shown as it stands. -/
def errorBy (span : Option Span) (kind text : String) : Message Arg :=
  { tag := kind, severity := errorSeverity, template := "%s", args := [F.ofText text], span }

/-- The message that reports a fault. -/
def ofFaultBy (fault : Fault) : Message Arg := errorBy F fault.span fault.kind.tag fault.message

/-- A warning. -/
def warning (template : String) (args : List Arg) : Message Arg :=
  { tag := "Warning", severity := warningSeverity, template, args }

/-- Debugging output. -/
def debug (template : String) (args : List Arg) : Message Arg :=
  { tag := "Debug", severity := debugSeverity, template, args }

end

/-- An error of some kind, for directives. -/
def error (span : Option Span) (kind text : String) : Message :=
  errorBy Template.standard span kind text

/-- The message that reports a fault, for directives. -/
def ofFault (fault : Fault) : Message := ofFaultBy Template.standard fault

end Message

/-- What a stream is asked to do. -/
inductive StreamCall where
  | write (s : String)
  | flush
deriving DecidableEq, Repr

/-- The ways in which a stream can be broken. -/
inductive Breakage where
  | write | flush
deriving DecidableEq, Repr

/-- The wording of a stream's failure. -/
def Breakage.message : Breakage → String
  | write => "write failed"
  | flush => "flush failed"

/-- A message that was not shown, as the log has it. -/
structure Discarded where
  tag : String
  severity : Int
  verbosity : Int
deriving DecidableEq, Repr

/-- The line that a debugging log shows for a message that was not shown. -/
def Discarded.line (d : Discarded) : String :=
  "DeBruijnMessenger: Discarding " ++ d.tag ++ " (severity " ++ Decimal.text d.severity ++
    " > verbosity " ++ Decimal.text d.verbosity ++ ")"

/-- How sending a message can fail. -/
inductive SendError (Err : Type := Template.Error) where
  /-- The template does not fit its arguments. -/
  | template (e : Err)
  /-- A number is too long to be written. -/
  | digits (bound : DigitLimit)
  /-- The stream is broken. -/
  | stream (b : Breakage)
deriving DecidableEq

/-- The wording of a failure to send. -/
def SendError.message : SendError → String
  | template e => e.message
  | digits bound => bound.message
  | stream b => b.message

/-- What came of a message: what the stream was asked to do and did, what went to the log, and the
outcome. -/
structure Delivery (Err : Type := Template.Error) where
  calls : List StreamCall := []
  log : List Discarded := []
  outcome : Except (SendError Err) Unit

/-- A messenger: the verbosity in force, and what is wrong with its stream, if anything. -/
structure Messenger where
  verbosity : Int := Message.warningSeverity
  broken : Option Breakage := none
deriving DecidableEq, Repr

namespace Messenger

/-- The page that a message is laid out on, with the body in a group of its own. -/
def page (tag position body : String) : Page :=
  Page.blank Page.defaultLimit
    |>.putText (tag ++ " at " ++ position ++ ":")
    |>.putNewline
    |>.enter tag
    |>.putText body
    |>.leave
    |>.putNewline

/-- The whole text of a message. -/
def layout (tag position body : String) : String := (page tag position body).text

/-- A message is a heading line, its body, and a line end. -/
theorem layout_eq (tag position body : String) :
    layout tag position body = tag ++ " at " ++ position ++ ":\n" ++ body ++ "\n" := by
  have hblank : (Page.blank Page.defaultLimit).text = "" := rfl
  have hcolon : ":\n" = ":" ++ "\n" := rfl
  simp only [layout, page, Page.putText, Page.putNewline, Page.enter, Page.leave, Page.text_note,
    Mark.reading, hblank, hcolon, String.empty_append, String.append_empty, String.append_assoc]

section

variable {Arg Err : Type}

/-- Writes a text to the stream and flushes it. A call that fails leaves no trace. -/
def emit (m : Messenger) (s : String) : Delivery Err :=
  match m.broken with
  | none => { calls := [.write s, .flush], outcome := .ok () }
  | some .write => { outcome := .error (.stream .write) }
  | some .flush => { calls := [.write s], outcome := .error (.stream .flush) }

/-- Sends a message whose template is filled in by `F`. -/
def sendBy (F : Template.Filling Arg Err) (m : Messenger) (msg : Message Arg) : Delivery Err :=
  match F.body msg.template msg.args with
  | .error e => { outcome := .error (.template e) }
  | .ok body =>
    if m.verbosity < msg.severity then
      { log := [⟨msg.tag, msg.severity, m.verbosity⟩], outcome := .ok () }
    else match Span.describe msg.span with
      | .error bound => { outcome := .error (.digits bound) }
      | .ok position => m.emit (layout msg.tag position body)

end

/-- Sends a message. -/
def send (m : Messenger) (msg : Message) : Delivery := m.sendBy Template.standard msg

end Messenger

end Nameless
