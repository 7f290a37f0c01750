import Nameless.Proofs.Naming

/-!
# Which printed variables read back

A printed variable reads back if its name, looked up in the scope from the inside out, is found at
its own binder. Fresh names see to it that no used binder stands in the way. Unused binders all get
the placeholder, with no look at what is in scope, and that is the one way in which a variable can
be captured.

* **A printed variable reads back exactly if it is not the placeholder below an unused binder**
  (`Printer.format_readsBack_iff`). If the placeholder is neither in the context nor a hint, all
  printed variables read back.
* **A variable can be captured** (`Printer.format_placeholder_captured`): in the context `_`, the
  term `λ x. 1` is printed as `λ _ . _`.
-/

namespace Nameless

/-- A variable that is printed: the scope at that point, the index, and the name. -/
structure Sighting where
  scope : List Binder
  index : Nat
  name : String
deriving DecidableEq, Repr

namespace Sighting

/-- The names in scope, innermost first. -/
def names (v : Sighting) : List String := v.scope.map Binder.name

/-- The printed name, looked up from the inside out, is found first at the variable's own index. -/
def ReadsBack (v : Sighting) : Prop := v.names.idxOf? v.name = some v.index

instance (v : Sighting) : Decidable v.ReadsBack :=
  inferInstanceAs (Decidable (v.names.idxOf? v.name = some v.index))

end Sighting

/-- The variables that are printed in a sketch, from left to right. -/
def Sketch.sightings : List Binder → Sketch → List Sighting
  | _, hole _ => []
  | scope, var index name => [⟨scope, index, name⟩]
  | scope, lam binders body => body.sightings (binders ++ scope)
  | scope, app fn arg => fn.sightings scope ++ arg.sightings scope

/-- Where a sketch shows a term, every variable is printed by the name of its own binder, which is
used, in a clear scope. -/
theorem Sketch.Shows.sighting {good : String → Prop} {scope : List Binder} {sketch : Sketch}
    {e : Plain} (h : sketch.Shows good scope e) {v : Sighting} (hv : v ∈ sketch.sightings scope) :
    v.scope[v.index]? = some ⟨v.name, true⟩ ∧ Clear good v.scope := by
  induction sketch generalizing scope e with
  | hole kind => cases hv
  | var index name =>
    obtain ⟨-, hindex, hclear⟩ := h
    rw [List.mem_singleton.1 hv]
    exact ⟨hindex, hclear⟩
  | lam binders body ih =>
    obtain ⟨hints, inner, -, -, -, -, hbody⟩ := h
    exact ih hbody hv
  | app fn arg ihf iha =>
    obtain ⟨f, a, -, hfn, harg⟩ := h
    rcases List.mem_append.1 hv with hv | hv
    · exact ihf hfn hv
    · exact iha harg hv

namespace Printer

/-- **A printed variable reads back exactly if it is not the placeholder below an unused binder.**
In every run that prints a regular term in a context of different names, the text is that of a
sketch in which each variable is printed by the name that the scope has for its index. Looked up
from the inside out, that name gives back the index exactly if it is not the placeholder or all
binders further inside are used. So all variables read back if the placeholder is neither in the
context nor a hint. -/
theorem format_readsBack_iff {limit : Int} {context : List String} {e : Term} {max : Option Int}
    {desk desk' : Desk} {text : String} (hcontext : context.Nodup) (he : e.Regular)
    (hrun : ((standard limit).format context e max).runAt desk = (.ok text, desk')) :
    ∃ sketch, (standard limit).sketch context limit e = .ok sketch ∧
      text.toList = Mark.chars (sketch.marks "λ" max) ∧
      (∀ v ∈ sketch.sightings (Binder.ofContext context), v.names[v.index]? = some v.name ∧
        (v.ReadsBack ↔ (v.name = "_" → ∀ b ∈ v.scope.take v.index, b.used = true))) ∧
      ("_" ∉ context → "_" ∉ e.hints →
        ∀ v ∈ sketch.sightings (Binder.ofContext context), v.ReadsBack) := by
  obtain ⟨sketch, hsketch, htext, -⟩ := format_eq_ok (steady_standard limit) hrun
  refine ⟨sketch, hsketch, htext, ?_, ?_⟩
  · have hshows := sketch_shows_of_nodup (fun _ => True) (fun _ _ _ _ => trivial) hsketch he
      hcontext (fun _ _ => trivial) (fun _ _ => trivial)
    intro v hv
    obtain ⟨hindex, hclear⟩ := hshows.sighting hv
    refine ⟨?_, hclear.idxOf?_eq_some_iff hindex⟩
    rw [Sighting.names, List.getElem?_map, hindex, Option.map_some]
  · intro hplain hhint v hv
    have hnames : ∀ name ∈ context, name ≠ "_" := by
      rintro name hmem rfl
      exact hplain hmem
    have hhints : ∀ hint ∈ e.hints, hint ≠ "_" := by
      rintro hint hmem rfl
      exact hhint hmem
    have hshows := sketch_shows_of_nodup (· ≠ "_") (fun _ _ _ h => h.ne_placeholder) hsketch he
      hcontext hnames hhints
    obtain ⟨hindex, hclear⟩ := hshows.sighting hv
    refine (hclear.idxOf?_eq_some_iff hindex).2 ?_
    intro hname
    exact absurd hname (hclear.good _ (List.mem_of_getElem? hindex) rfl)

/-- In the context `_`, the term `λ y. 1 0` is printed as `λ y . _ y`. Its binder is used, so the
placeholder from the context reads back below it. -/
theorem format_placeholder_readsBack :
    let e := Term.lam none "y" (.app none (.var none 1) (.var none 0))
    let sketch := Sketch.lam [⟨"y", true⟩] (.app (.var 1 "_") (.var 0 "y"))
    ["_"].Nodup ∧ e.Regular ∧
      (∃ desk', ((standard 200).format ["_"] e none).runAt (.blank 200) =
        (.ok "λ y . _ y", desk')) ∧
      ∀ v ∈ sketch.sightings (Binder.ofContext ["_"]), v.ReadsBack := by
  intro e sketch
  have hrun : (Term.app none (.var none 1) (.var none 0)).run =
      .ok ([], .app none (.var none 1) (.var none 0)) := by
    rw [Term.run]
    rfl
  have hused : (Term.app none (.var none 1) (.var none 0)).occurs
      (([] : List Binder).length : Int) = .ok true := Term.occurs_regular (by decide) 0
  have hname : (standard 200).nameFor [] true ("y", ["_"]) = .ok "y" := rfl
  have hsketch : (standard 200).sketch ["_"] 200 e = .ok sketch := by
    have htrace : (standard 200).trace ["_"] 200 [] e =
        .lam [("y", ["_"])] [⟨"y", true⟩] (.app (.var 1 "_") (.var 0 "y")) := by
      refine trace_lam (by decide) hrun (nameBinders_cons hused hname []) ?_ none
      exact trace_app (by decide) (trace_var (by decide) rfl _ none)
        (trace_var (by decide) rfl _ none) none
    rw [Printer.sketch, htrace]
    rfl
  obtain ⟨desk', hformat, -⟩ := runAt_format (steady_standard 200) hsketch none (.blank 200)
  refine ⟨by decide, by decide, ⟨desk', hformat⟩, ?_⟩
  obtain ⟨found, hfound, -, hall, -⟩ :=
    format_readsBack_iff (by decide) (by decide : e.Regular) hformat
  rw [hsketch] at hfound
  cases hfound
  intro v hv
  have hv' : v = ⟨[⟨"y", true⟩, ⟨"_", true⟩], 1, "_"⟩ ∨
      v = ⟨[⟨"y", true⟩, ⟨"_", true⟩], 0, "y"⟩ := by
    simpa [sketch, Sketch.sightings, Binder.ofContext] using hv
  refine (hall v hv).2.2 ?_
  rcases hv' with rfl | rfl <;> decide

/-- In the context `_`, the term `λ x. 1` is printed as `λ _ . _`, and the variable does not read
back: the placeholder of the unused binder captures it. -/
theorem format_placeholder_captured :
    let e := Term.lam none "x" (.var none 1)
    let sketch := Sketch.lam [⟨"_", false⟩] (.var 1 "_")
    ["_"].Nodup ∧ e.Regular ∧
      (∃ desk', ((standard 200).format ["_"] e none).runAt (.blank 200) =
        (.ok "λ _ . _", desk')) ∧
      (standard 200).sketch ["_"] 200 e = .ok sketch ∧
      ∃ v ∈ sketch.sightings (Binder.ofContext ["_"]), v.index = 1 ∧ ¬ v.ReadsBack := by
  intro e sketch
  have hrun : (Term.var none 1).run = .ok ([], .var none 1) := by
    rw [Term.run]
    rfl
  have hused : (Term.var none 1).occurs (([] : List Binder).length : Int) = .ok false :=
    Term.occurs_regular (by decide) 0
  have hname : (standard 200).nameFor [] false ("x", ["_"]) = .ok "_" := rfl
  have hsketch : (standard 200).sketch ["_"] 200 e = .ok sketch := by
    have htrace : (standard 200).trace ["_"] 200 [] e =
        .lam [] [⟨"_", false⟩] (.var 1 "_") := by
      refine trace_lam (by decide) hrun (nameBinders_cons hused hname []) ?_ none
      exact trace_var (by decide) rfl _ none
    rw [Printer.sketch, htrace]
    rfl
  obtain ⟨desk', hformat, -⟩ := runAt_format (steady_standard 200) hsketch none (.blank 200)
  exact ⟨by decide, by decide, ⟨desk', hformat⟩, hsketch, _, List.mem_singleton_self _, rfl,
    by decide⟩

end Printer

end Nameless
