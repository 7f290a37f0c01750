import Nameless.Print.Basic
import Nameless.Term.Occurs
import Nameless.Term.Run

/-!
# Printing terms

Every form of term has a level, and every place where a term can stand allows levels up to a
bound. A term is put in parentheses where its level exceeds the bound of its place.

Variables have level `0`, applications level `1`, abstractions level `3`. The function of an
application may have level `1` and its argument level `0`, so applications group to the left and
abstractions are put in parentheses on either side.

Names are chosen while printing. A run of abstractions is printed as one binder list. Its variables
are named from the inside out: one that is used gets a variant of its hint that avoids the context
and the names chosen so far, one that is not used is shown by a placeholder.

When the page is full on reaching a term, nothing is printed for it.
-/

namespace Nameless

/-- The level of an application. -/
def Level.app : Int := 1

/-- The level of an abstraction. -/
def Level.lam : Int := 3

/-- How terms look in print. -/
structure Style where
  /-- The limit on open groups of a page that is set up for printing. -/
  maxGroups : Int := Page.defaultLimit
  /-- What stands for a bound variable that is not used. -/
  placeholder : String := "_"
  /-- The symbol before a binder list. -/
  lambda : String := "λ"
deriving DecidableEq, Repr

/-- A printer: how terms look, and how names are varied. -/
structure Printer where
  style : Style := {}
  freshen : Name.Freshen := .counting

/-- The name that a context gives to an index, index `0` first. -/
def nameAt? (context : List String) (index : Int) : Option String :=
  if index < 0 then none else context[index.toNat]?

namespace Printer

/-- Asks for a variant of a name that avoids the names that are taken. -/
def fresh (p : Printer) (hint : String) (taken : List String) : Print String := do
  let asked ← Print.asked
  Print.ask (hint, taken)
  match p.freshen asked hint taken with
  | .ok name => return name
  | .error x => throw x

/-- Chooses names for the variables of a binder run over `body`. The hints come innermost first;
`chosen` holds the names of the variables further inside, innermost first. -/
def chooseNames (p : Printer) (context : List String) (body : Term) (chosen : List String) :
    List String → Print (List String)
  | [] => return chosen
  | hint :: hints => do
    let name ← match body.occurs chosen.length with
      | .error x => throw x
      | .ok true => p.fresh hint (context ++ chosen)
      | .ok false => pure p.style.placeholder
    p.chooseNames context body (chosen ++ [name]) hints

/-- Prints a binder list, up to what is below it. The names come outermost first. -/
def heading (p : Printer) (names : List String) : Print Unit := do
  Print.text (p.style.lambda ++ " ")
  Print.sequence "" (names.map Print.ident)
  Print.text " ."
  Print.gap

/-- Prints a binder list and what is below it. The hints come outermost first; `inside` prints the
body in the context that the chosen names make. -/
def binders (p : Printer) (context hints : List String) (body : Term)
    (inside : List String → Print Unit) : Print Unit := do
  let chosen ← p.chooseNames context body [] hints.reverse
  Print.framed none Level.lam do
    p.heading chosen.reverse
    inside (chosen ++ context)

/-- Prints a term in a context, with the level that its place allows. -/
def term (p : Printer) (context : List String) (e : Term) (max : Option Int) : Print Unit := do
  if (← Print.page).isFull then Print.skip e.kind
  else match e with
  | .var loc index =>
    match nameAt? context index with
    | some name => Print.framed max 0 (Print.text name)
    | none => throw (.raise (.nameless index context.length loc))
  | .pending _ s body =>
    match _h : body.force s with
    | .error x => throw x
    | .ok r => p.term context r max
  | .lam _ hint body =>
    Print.framed max Level.lam
      (match _h : body.run with
      | .error x => throw x
      | .ok (hints, inner) =>
        p.binders context (hint :: hints) inner fun context => p.term context inner none)
  | .app _ fn arg =>
    Print.framed max Level.app do
      p.term context fn (some Level.app)
      Print.gap
      p.term context arg (some 0)
  | .unknown loc => throw (.raise (.unprintable (.unknown loc)))
termination_by e.weight
decreasing_by
  · have := Term.weight_force_le _h
    rw [Term.weight_pending]
    omega
  · have := Term.weight_run_le _h
    have := Term.weight_body_lt (by assumption) hint body
    omega
  · have := Term.weight_fn_arg_lt (by assumption) fn arg
    omega
  · have := Term.weight_fn_arg_lt (by assumption) fn arg
    omega

/-- On a full page a term is left out, and nothing else happens. -/
theorem runAt_term_of_full (p : Printer) (context : List String) (e : Term) (max : Option Int)
    {desk : Desk} (h : desk.page.isFull = true) :
    (p.term context e max).runAt desk =
      (.ok (), { desk with skips := desk.skips.push ⟨desk.page.depth, e.kind⟩ }) := by
  unfold term
  show (if desk.page.isFull then Print.skip e.kind else _).runAt desk = _
  rw [if_pos h]
  rfl

/-- Prints the abstraction with a given hint and body, without looking at the limit on groups
first. Abstractions directly below it join its binder list. -/
def lambda (p : Printer) (context : List String) (hint : String) (body : Term) : Print Unit :=
  match body.run with
  | .error x => throw x
  | .ok (hints, inner) =>
    p.binders context (hint :: hints) inner fun context => p.term context inner none

/-- The text of a term, on a page of its own. -/
def format (p : Printer) (context : List String) (e : Term) (max : Option Int) : Print String :=
  Print.apart p.style.maxGroups (p.term context e max)

end Printer

end Nameless
