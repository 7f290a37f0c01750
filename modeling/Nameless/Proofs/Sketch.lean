import Nameless.Print.Term
import Nameless.Proofs.Record

/-!
# What is printed, as a tree

A `Sketch` is the tree of what is printed for a term, and `sketch.marks` puts it into marks.
Choosing names and putting marks on a page go hand in hand when a term is printed. Here the two are
taken apart.

* **Names are chosen away from the page** (`Printer.chooseNames_adds`): nothing is put on it, and
  the only trace of the choice are the fresh names that were asked for.
* **A binder list puts its heading on the page** (`Printer.heading_adds`).
-/

namespace Nameless

/-- A name in scope. -/
structure Binder where
  /-- How it is printed. -/
  name : String
  /-- Whether the variable occurs below its binder. What the context names counts as used. -/
  used : Bool := true
deriving DecidableEq, Repr

/-- What is printed for a term. -/
inductive Sketch where
  /-- Nothing, for a term of that kind: the page was full. -/
  | hole (kind : Term.Kind)
  /-- A variable by its name. -/
  | var (index : Nat) (name : String)
  /-- A binder list and what is below it. The binders come innermost first. -/
  | lam (binders : List Binder) (body : Sketch)
  /-- An application. -/
  | app (fn arg : Sketch)
deriving DecidableEq, Repr

namespace Sketch

/-- The marks of a binder list with its names, up to what is below it. -/
def heading (symbol : String) (names : List String) : List Mark :=
  .text (symbol ++ " ") ::
    (Mark.sequence "" (names.map fun name => Mark.framed none 0 [.text name]) ++
      [.text " .", .gap])

/-- The marks of a sketch in a place that allows a level, with a symbol before binder lists. -/
def marks (symbol : String) : Option Int → Sketch → List Mark
  | _, hole _ => []
  | max, var _ name => Mark.framed max 0 [.text name]
  | max, lam binders body =>
    Mark.framed max Level.lam (Mark.framed none Level.lam
      (heading symbol (binders.map Binder.name).reverse ++ body.marks symbol none))
  | max, app fn arg =>
    Mark.framed max Level.app
      (fn.marks symbol (some Level.app) ++ .gap :: arg.marks symbol (some 0))

/-- What a sketch leaves out, when a number of groups are open around it. -/
def skips : Nat → Sketch → List Skip
  | depth, hole kind => [⟨depth, kind⟩]
  | _, var _ _ => []
  | depth, lam _ body => body.skips (depth + 2)
  | depth, app fn arg => fn.skips (depth + 1) ++ arg.skips (depth + 1)

end Sketch

/-- What comes of naming the binders of a run. -/
structure Naming where
  /-- The fresh names that are asked for on the way, in order. -/
  queries : List Name.Query
  /-- The binders, innermost first. -/
  outcome : Except Failure (List Binder)

/-- A naming before which some other names were asked for. -/
def Naming.after (naming : Naming) (queries : List Name.Query) : Naming :=
  { naming with queries := queries ++ naming.queries }

namespace Printer

/-- The name of a binder: a variant of its hint if it is used, and otherwise the placeholder. -/
def nameFor (p : Printer) (asked : List Name.Query) (used : Bool) (query : Name.Query) :
    Except Failure String :=
  if used then p.freshen asked query.1 query.2 else .ok p.style.placeholder

/-- What is asked for to name a binder. -/
def queryFor (used : Bool) (query : Name.Query) : List Name.Query := if used then [query] else []

/-- Names the binders of a run over `body`, innermost first, after some other names were asked for.
The hints come innermost first; `chosen` holds the binders further inside. -/
def nameBinders (p : Printer) (context : List String) (body : Term) (asked : List Name.Query)
    (chosen : List Binder) : List String → Naming
  | [] => ⟨[], .ok chosen⟩
  | hint :: hints =>
    match body.occurs chosen.length with
    | .error x => ⟨[], .error x⟩
    | .ok used =>
      let query := (hint, context ++ chosen.map Binder.name)
      match p.nameFor asked used query with
      | .error x => ⟨queryFor used query, .error x⟩
      | .ok name =>
        (p.nameBinders context body (asked ++ queryFor used query) (chosen ++ [⟨name, used⟩])
          hints).after (queryFor used query)

/-! ## Names -/

/-- The first binder that is named, and the rest. -/
theorem nameBinders_cons {p : Printer} {context : List String} {body : Term}
    {asked : List Name.Query} {chosen : List Binder} {used : Bool} {hint name : String}
    (hused : body.occurs chosen.length = .ok used)
    (hname : p.nameFor asked used (hint, context ++ chosen.map Binder.name) = .ok name)
    (hints : List String) :
    p.nameBinders context body asked chosen (hint :: hints) =
      (p.nameBinders context body
        (asked ++ queryFor used (hint, context ++ chosen.map Binder.name))
        (chosen ++ [⟨name, used⟩]) hints).after
          (queryFor used (hint, context ++ chosen.map Binder.name)) := by
  rw [nameBinders, hused]
  simp only [hname]

/-- If all binders get their names, the first one does, and so do the others after it. -/
theorem nameBinders_cons_eq_ok {p : Printer} {context : List String} {body : Term}
    {asked : List Name.Query} {chosen bs : List Binder} {hint : String} {hints : List String}
    (h : (p.nameBinders context body asked chosen (hint :: hints)).outcome = .ok bs) :
    ∃ used name, body.occurs chosen.length = .ok used ∧
      p.nameFor asked used (hint, context ++ chosen.map Binder.name) = .ok name ∧
      (p.nameBinders context body
        (asked ++ queryFor used (hint, context ++ chosen.map Binder.name))
        (chosen ++ [⟨name, used⟩]) hints).outcome = .ok bs := by
  cases hused : body.occurs chosen.length with
  | error x =>
    rw [nameBinders, hused] at h
    cases h
  | ok used =>
    cases hname : p.nameFor asked used (hint, context ++ chosen.map Binder.name) with
    | error x =>
      rw [nameBinders, hused] at h
      simp only [hname] at h
      cases h
    | ok name =>
      rw [nameBinders_cons hused hname] at h
      exact ⟨used, name, rfl, hname, h⟩

/-- There is a binder for each hint. -/
theorem nameBinders_length {p : Printer} {context : List String} {body : Term}
    {asked : List Name.Query} {chosen bs : List Binder} {hints : List String}
    (h : (p.nameBinders context body asked chosen hints).outcome = .ok bs) :
    bs.length = chosen.length + hints.length := by
  induction hints generalizing asked chosen with
  | nil =>
    cases h
    rfl
  | cons hint hints ih =>
    obtain ⟨used, name, -, -, h⟩ := nameBinders_cons_eq_ok h
    rw [ih h, List.length_append, List.length_singleton, List.length_cons]
    omega

/-- Asking for a fresh name notes the request, whatever comes of it. The answer may depend on what
was asked for before. -/
theorem fresh_adds (p : Printer) (hint : String) (taken : List String) (desk : Desk) :
    (p.fresh hint taken).Adds desk (p.freshen desk.requests.toList hint taken)
      ⟨[], [], [(hint, taken)]⟩ := by
  have hlook : Print.asked.runAt desk = (.ok desk.requests.toList, desk) := rfl
  have hnote : (Print.ask (hint, taken)).Adds desk (.ok ()) ⟨[], [], [(hint, taken)]⟩ := by
    simp [Print.Adds, Desk.add]
    rfl
  rw [Print.Adds, fresh, Print.runAt_bind_ok hlook]
  cases p.freshen desk.requests.toList hint taken with
  | error x =>
    have hthrow := Print.adds_throw (α := String) x (desk.add ⟨[], [], [(hint, taken)]⟩)
    exact hnote.next hthrow
  | ok name =>
    have hpure := Print.adds_pure name (desk.add ⟨[], [], [(hint, taken)]⟩)
    exact hnote.next hpure

/-- A binder gets its name away from the page. -/
theorem nameFor_adds (p : Printer) (used : Bool) (query : Name.Query) (desk : Desk) :
    (if used then p.fresh query.1 query.2 else pure p.style.placeholder).Adds desk
      (p.nameFor desk.requests.toList used query) ⟨[], [], queryFor used query⟩ := by
  cases used with
  | false => exact Print.adds_pure _ desk
  | true => exact p.fresh_adds query.1 query.2 desk

/-- Choosing names for a binder list puts nothing on the page, and notes what is asked for. -/
theorem chooseNames_adds (p : Printer) (context : List String) (body : Term)
    (chosen : List Binder) (hints : List String) (desk : Desk) :
    let naming := p.nameBinders context body desk.requests.toList chosen hints
    (p.chooseNames context body (chosen.map Binder.name) hints).Adds desk
      (naming.outcome.map (List.map Binder.name)) ⟨[], [], naming.queries⟩ := by
  induction hints generalizing chosen desk with
  | nil => exact Print.adds_pure _ desk
  | cons hint hints ih =>
    cases hocc : body.occurs chosen.length with
    | error x =>
      rw [chooseNames, nameBinders, List.length_map, hocc]
      exact (Print.adds_throw x desk).bind_error _
    | ok used =>
      let query : Name.Query := (hint, context ++ chosen.map Binder.name)
      have hfirst := p.nameFor_adds used query desk
      have hstep : p.chooseNames context body (chosen.map Binder.name) (hint :: hints) =
          (if used then p.fresh query.1 query.2 else pure p.style.placeholder) >>= fun name =>
            p.chooseNames context body (chosen.map Binder.name ++ [name]) hints := by
        rw [chooseNames, List.length_map, hocc]
        cases used <;> rfl
      rw [hstep]
      cases hname : p.nameFor desk.requests.toList used query with
      | error x =>
        rw [hname] at hfirst
        rw [nameBinders, hocc]
        simp only [query] at hname
        simp only [hname]
        exact hfirst.bind_error _
      | ok name =>
        rw [hname] at hfirst
        have hrest := ih (chosen ++ [⟨name, used⟩]) (desk.add ⟨[], [], queryFor used query⟩)
        rw [List.map_append, Desk.requests_add] at hrest
        rw [nameBinders_cons hocc hname]
        exact hfirst.bind (f := fun name =>
          p.chooseNames context body (chosen.map Binder.name ++ [name]) hints) hrest

/-- The heading of a binder list puts its marks on the page. -/
theorem heading_adds (p : Printer) (names : List String) (desk : Desk) :
    (p.heading names).Adds desk (.ok ()) ⟨Sketch.heading p.style.lambda names, [], []⟩ :=
  (Print.adds_text (p.style.lambda ++ " ") desk).next
    ((Print.adds_sequence Print.adds_ident "" names _).next
      ((Print.adds_text " ." _).next (Print.adds_gap _)))

end Printer

end Nameless
