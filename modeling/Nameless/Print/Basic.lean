import Nameless.Name.Fresh
import Nameless.Page.Basic

/-!
# Printing actions

A printing action works at a desk: the page that it prints on, the subterms that the limit on
groups made it leave out, and the fresh names it asked for. An action may fail; whatever it put on
the desk up to then stays there.

Brackets are never left open. `inGroup` closes its group and `framed` its parenthesis whether or
not what they enclose fails, and should the closing itself fail, that is the failure that counts.
-/

namespace Nameless

/-- A subterm that was left out because the page was full. -/
structure Skip where
  /-- The number of open groups at the time. -/
  depth : Nat
  /-- The kind of the subterm. -/
  kind : Term.Kind
deriving DecidableEq, Repr

/-- The line that a debugging log shows for a subterm that was left out. -/
def Skip.line (skip : Skip) : String :=
  "DeBruijnPrinter: Group limit reached at depth " ++ Decimal.text skip.depth ++ ", skipping " ++
    skip.kind.name

/-- What printing works on. -/
structure Desk where
  /-- The page that is printed on. -/
  page : Page
  /-- The subterms that were left out, in order. -/
  skips : Array Skip := #[]
  /-- The fresh names that were asked for, in order. -/
  requests : Array Name.Query := #[]
deriving DecidableEq

/-- A desk with an empty page. -/
def Desk.blank (limit : Int) : Desk := { page := .blank limit }

/-- A printing action. -/
abbrev Print := ExceptT Failure (StateM Desk)

namespace Print

/-- Runs an action at a desk. -/
def runAt {α : Type} (action : Print α) (desk : Desk) : Except Failure α × Desk :=
  StateT.run (ExceptT.run action) desk

/-- Looks at the page. -/
def page : Print Page := do return (← get).page

/-- Looks at what was asked for before. -/
def asked : Print (List Name.Query) := do return (← get).requests.toList

/-- Takes down that a fresh name is asked for. -/
def ask (query : Name.Query) : Print Unit :=
  modify fun desk => { desk with requests := desk.requests.push query }

/-- Changes the page. -/
def onPage (f : Page → Page) : Print Unit := modify fun desk => { desk with page := f desk.page }

/-- Takes down one mark on the page. -/
def note (mark : Mark) : Print Unit := onPage (·.note mark)

/-- Prints literal text. -/
def text (s : String) : Print Unit := note (.text s)

/-- Prints a break hint. -/
def gap : Print Unit := note .gap

/-- Ends the line. -/
def newline : Print Unit := note .newline

/-- Opens a group. -/
def enter (name : String) : Print Unit := note (.enter name)

/-- Closes the innermost group, which has to exist. -/
def leave : Print Unit := do
  if (← page).groups.isEmpty then
    note .refused
    throw (.raise .noOpenGroup)
  else note .leave

/-- Takes down that a subterm is left out. -/
def skip (kind : Term.Kind) : Print Unit :=
  modify fun desk => { desk with skips := desk.skips.push ⟨desk.page.depth, kind⟩ }

/-- Does `body` and then `final`, also if `body` fails. The failure of `final` counts before that
of `body`. -/
def ensuring {α : Type} (body : Print α) (final : Print Unit) : Print α :=
  ExceptT.mk do
    let outcome ← body.run
    match ← final.run with
    | .ok () => return outcome
    | .error x => return .error x

/-- Does `body` inside a group. -/
def inGroup {α : Type} (name : String) (body : Print α) : Print α := do
  enter name
  ensuring body leave

/-- Whether output of a level needs a parenthesis where at most `max` is allowed. No bound allows
every level. -/
def needsParen (max : Option Int) (level : Int) : Bool :=
  match max with
  | none => false
  | some bound => decide (bound < level)

/-- Does `body` between the parentheses of a frame. -/
def enclosed {α : Type} (body : Print α) : Print α := do
  note .opening
  ensuring body (note .closing)

/-- Does `body` inside an unnamed group, in parentheses if its level exceeds what is allowed. -/
def framed {α : Type} (max : Option Int) (level : Int) (body : Print α) : Print α :=
  if needsParen max level then enclosed (inGroup "" body) else inGroup "" body

/-- Prints an identifier, in a group of its own. -/
def ident (name : String) : Print Unit := framed none 0 (text name)

/-- Does one action after the other, each in a group of its own. What separates an action from the
next, the separator and a break hint, belongs to the group of the first of the two. -/
def sequence (separator : String) : List (Print Unit) → Print Unit
  | [] => pure ()
  | [last] => framed none 0 last
  | item :: next :: rest => do
    framed none 0 do
      item
      text separator
      gap
    sequence separator (next :: rest)

/-- Prints on a fresh page and gives back its text. The page at hand stays as it is. -/
def apart (limit : Int) (body : Print Unit) : Print String := do
  let held ← page
  onPage fun _ => .blank limit
  ensuring (do body; return (← page).text) (onPage fun _ => held)

end Print

end Nameless
