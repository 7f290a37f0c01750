import Nameless.Print.Term

/-!
# Scripts of output operations

A script lists output operations, nested where an operation encloses others. It is the form in
which callers hand structured output to a printer. Steps run in order, and the first that fails
ends the steps around it, after the brackets on the way out have been closed.

`enter` and `leave` open and close groups by hand, so a script that uses them can be unbalanced.
-/

namespace Nameless

/-- One output operation. -/
inductive Step where
  /-- Prints literal text. -/
  | text (s : String)
  /-- Prints a break hint. -/
  | gap
  /-- Ends the line. -/
  | newline
  /-- Opens a group. -/
  | enter (name : String)
  /-- Closes the innermost group. -/
  | leave
  /-- Does the steps inside a group. -/
  | group (name : String) (body : List Step)
  /-- Does the steps inside an unnamed group, in parentheses if `level` exceeds `max`. -/
  | framed (max : Option Int) (level : Int) (body : List Step)
  /-- Does the items one after the other, separated. -/
  | sequence (separator : String) (items : List (List Step))
  /-- Prints an identifier. -/
  | ident (name : String)
  /-- Prints an abstraction with a given hint and body. -/
  | lambda (context : List String) (hint : String) (body : Term)
  /-- Prints a term. -/
  | term (context : List String) (e : Term) (max : Option Int)
  /-- Fails. -/
  | fail (x : Failure)
  /-- Asks for the number of open groups. -/
  | depth
  /-- Asks whether the page is full. -/
  | isFull
  /-- Asks for the text of the page. -/
  | value
  /-- Does the items one after the other on a page of their own, and asks for its text. -/
  | formatSequence (separator : String) (items : List (List Step))
  /-- Asks for the text of an identifier. -/
  | formatIdent (name : String)
  /-- Asks for the text of a term. -/
  | formatTerm (context : List String) (e : Term) (max : Option Int)

/-- What a step answers. -/
inductive Reply where
  | nothing
  | number (n : Nat)
  | flag (b : Bool)
  | text (s : String)
deriving DecidableEq, Repr

namespace Printer

mutual

/-- Does one step. -/
def step (p : Printer) : Step → Print Reply
  | .text s => do Print.text s; return .nothing
  | .gap => do Print.gap; return .nothing
  | .newline => do Print.newline; return .nothing
  | .enter name => do Print.enter name; return .nothing
  | .leave => do Print.leave; return .nothing
  | .group name body => do Print.inGroup name (p.script body); return .nothing
  | .framed max level body => do Print.framed max level (p.script body); return .nothing
  | .sequence separator items => do Print.sequence separator (p.items items); return .nothing
  | .ident name => do Print.ident name; return .nothing
  | .lambda context hint body => do p.lambda context hint body; return .nothing
  | .term context e max => do p.term context e max; return .nothing
  | .fail x => throw x
  | .depth => do return .number (← Print.page).depth
  | .isFull => do return .flag (← Print.page).isFull
  | .value => do return .text (← Print.page).text
  | .formatSequence separator items => do
    return .text (← Print.apart p.style.maxGroups (Print.sequence separator (p.items items)))
  | .formatIdent name => do return .text (← Print.apart p.style.maxGroups (Print.ident name))
  | .formatTerm context e max => do return .text (← p.format context e max)

/-- Does the steps of a script, and drops what they answer. -/
def script (p : Printer) : List Step → Print Unit
  | [] => pure ()
  | s :: rest => do
    let _ ← p.step s
    p.script rest

/-- The actions that do the items of a sequence. -/
def items (p : Printer) : List (List Step) → List (Print Unit)
  | [] => []
  | item :: rest => p.script item :: p.items rest

end

end Printer

end Nameless
