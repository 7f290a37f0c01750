import Nameless.Proofs.FreeVariables
import Nameless.Proofs.Laziness

/-!
# Hints of unused binders do not matter

A binder that is not used is shown by a placeholder, whatever its hint. The hint is not varied
either, so no other name has to avoid it. Nothing of it shows.

Two terms with everything carried out are akin (`Term.Akin`) if they differ only in spans and in the
hints of binders to which no variable refers.

* **The same indices are free in akin terms** (`Term.Akin.occurs_eq`), and a binder that is found to
  be used has a variable that refers to it (`Term.Akin.refersAbove_of_occurs`).
* **Runs of akin terms** stand above akin bodies, and their hints agree in every binder that is used
  (`Term.Akin.run`).
* So **akin terms are printed side by side** (`Printer.term_akin`).

With laziness, this carries over to all terms that come to akin terms
(`Printer.format_unused_hints`). Regular terms always come to something (`Term.forceAll_regular`).
-/

namespace Nameless

/-- Two failures that are equal, or that both tell of a variable without a name. In that case the
index is the same and the number of names, but the variables may have been read from different
places. -/
inductive Failure.Same : Failure → Failure → Prop where
  | refl (x : Failure) : Same x x
  | nameless (index size : Int) (loc loc' : Option Span) :
    Same (.fault (.nameless index size loc)) (.fault (.nameless index size loc'))

instance : Std.Refl Failure.Same := ⟨.refl⟩

/-- Whether it can be told that a variable has no name does not depend on where it was read. -/
theorem Failure.same_raise_nameless (index size : Int) (loc loc' : Option Span) :
    Failure.Same (.raise (.nameless index size loc)) (.raise (.nameless index size loc')) := by
  have hwritable : (Fault.nameless index size loc').writable =
      (Fault.nameless index size loc).writable := rfl
  rw [raise, raise, hwritable]
  split
  · exact .nameless index size loc loc'
  · exact .refl _

namespace Term

/-- A variable in the body of an abstraction refers to its binder. -/
def RefersAbove (body : Term) : Prop := ∃ v ∈ body.leaves 0, v.index = v.depth

/-- Two terms in which nothing is pending and every node is of a known shape. They differ only in
spans, and in the hints of binders to which no variable refers. -/
inductive Akin : Term → Term → Prop where
  | var {loc loc' : Option Span} (k : Int) : Akin (.var loc k) (.var loc' k)
  | lam {loc loc' : Option Span} {hint hint' : String} {body body' : Term}
    (hhint : body.RefersAbove → hint = hint') (hbody : Akin body body') :
    Akin (.lam loc hint body) (.lam loc' hint' body')
  | app {loc loc' : Option Span} {fn fn' arg arg' : Term} (hfn : Akin fn fn')
    (harg : Akin arg arg') : Akin (.app loc fn arg) (.app loc' fn' arg')

/-- An index is free in a run of abstractions as it is in what is below them, raised by their
number. -/
theorem occurs_of_run {e inner : Term} {hints : List String} (h : e.run = .ok (hints, inner))
    (k : Int) : e.occurs k = inner.occurs (k + hints.length) := by
  fun_induction Term.run e generalizing hints k with
  | case1 => cases h
  | case2 e loc hint body hexp ih =>
    obtain ⟨⟨hints', inner'⟩, hrun, h⟩ := Failure.bind_eq_ok.1 h
    cases h
    have hbody := ih hrun (k + 1)
    rw [occurs, search_cons, hexp]
    show body.occurs (k + 1) = _
    rw [hbody, List.length_cons, Int.natCast_succ, Int.add_assoc, Int.add_comm 1]
  | case3 e inner hlam hexp =>
    cases h
    rw [occurs, occurs, search_cons, search_cons, hexp, expose_of_expose hexp]
    simp

namespace Akin

variable {e e' body body' inner : Term} {hint hint' : String} {hints hints' : List String}

/-- A search goes through akin terms alike. -/
theorem search_eq (h : e.Akin e') (k : Int) {rest rest' : Agenda}
    (hrest : search rest = search rest') :
    search ((k, e) :: rest) = search ((k, e') :: rest') := by
  induction h generalizing k rest rest' with
  | @var loc loc' i =>
    rw [Term.search_cons, Term.search_cons]
    show (if i = k then _ else search rest) = if i = k then _ else search rest'
    rw [hrest]
  | lam _ _ ih =>
    rw [Term.search_cons, Term.search_cons]
    exact ih (k + 1) hrest
  | app _ _ ihf iha =>
    rw [Term.search_cons, Term.search_cons]
    exact ihf k (iha k hrest)

/-- **The same indices are free in akin terms.** -/
theorem occurs_eq (h : e.Akin e') (k : Int) : e.occurs k = e'.occurs k := h.search_eq k rfl

/-- What a search finds below `depth` binders is a variable of the term, or is found later on. -/
theorem leaf_of_search (h : e.Akin e') {k : Int} {depth : Nat} {rest : Agenda}
    (hfound : search ((k + depth, e) :: rest) = .ok true) :
    (∃ v ∈ e.leaves depth, v.index = k + v.depth) ∨ search rest = .ok true := by
  induction h generalizing depth rest with
  | @var loc loc' i =>
    rw [Term.search_cons] at hfound
    replace hfound : (if i = k + depth then .ok true else search rest) = .ok true := hfound
    split at hfound
    · rename_i hi
      exact .inl ⟨⟨depth, i, loc⟩, List.mem_singleton.2 rfl, hi⟩
    · exact .inr hfound
  | lam _ _ ih =>
    rw [Term.search_cons] at hfound
    exact ih (show search ((k + (depth + 1 : Nat), _) :: rest) = .ok true by
      rwa [Int.natCast_succ, ← Int.add_assoc])
  | app _ _ ihf iha =>
    rw [Term.search_cons] at hfound
    rcases ihf hfound with ⟨v, hv, hindex⟩ | hfound
    · exact .inl ⟨v, List.mem_append_left _ hv, hindex⟩
    rcases iha hfound with ⟨v, hv, hindex⟩ | hfound
    · exact .inl ⟨v, List.mem_append_right _ hv, hindex⟩
    · exact .inr hfound

/-- **A binder that is found to be used has a variable that refers to it.** -/
theorem refersAbove_of_occurs (h : body.Akin body') (hfound : body.occurs 0 = .ok true) :
    body.RefersAbove := by
  have hleaf : (∃ v ∈ body.leaves 0, v.index = 0 + v.depth) ∨ search [] = .ok true :=
    h.leaf_of_search hfound
  rcases hleaf with ⟨v, hv, hindex⟩ | hnone
  · exact ⟨v, hv, by omega⟩
  · rw [search] at hnone
    cases hnone

/-- An abstraction goes around a run. -/
theorem hintsAgree_lam (h : body.Akin body') (hhint : body.RefersAbove → hint = hint')
    (hrun : body.run = .ok (hints, inner))
    (hagree : inner.HintsAgree 0 hints.reverse hints'.reverse) :
    inner.HintsAgree 0 (hint :: hints).reverse (hint' :: hints').reverse := by
  rw [List.reverse_cons, List.reverse_cons]
  refine hagree.concat fun hfound => hhint (h.refersAbove_of_occurs ?_)
  rw [occurs_of_run hrun]
  simpa using hfound

/-- **Runs of akin terms** stand above akin bodies. Their hints agree in every binder that is
used. -/
theorem run (h : e.Akin e') :
    ∃ hints hints' inner inner', e.run = .ok (hints, inner) ∧ e'.run = .ok (hints', inner') ∧
      inner.Akin inner' ∧ inner.HintsAgree 0 hints.reverse hints'.reverse := by
  induction h with
  | var k => exact ⟨[], [], _, _, run_eq _, run_eq _, .var k, .nil⟩
  | @lam loc loc' hint hint' body body' hhint hbody ih =>
    obtain ⟨hints, hints', inner, inner', hrun, hrun', hinner, hagree⟩ := ih
    exact ⟨hint :: hints, hint' :: hints', inner, inner', run_lam hrun loc hint,
      run_lam hrun' loc' hint', hinner, hbody.hintsAgree_lam hhint hrun hagree⟩
  | app hfn harg _ _ => exact ⟨[], [], _, _, run_eq _, run_eq _, .app hfn harg, .nil⟩

end Akin

end Term

namespace Printer

open Print

/-- **Akin terms are printed side by side.** -/
theorem term_akin (p : Printer) (context : List String) : (e : Term) → {e' : Term} →
    e.Akin e' → (max : Option Int) →
    Parallel Failure.Same (p.term context e max) (p.term context e' max)
  | .var _ _, _, .var _, max => p.parallel_var (Failure.same_raise_nameless ..) max
  | .lam loc hint body, _, .lam hhint hbody, max => by
    obtain ⟨hints, hints', inner, inner', hrun, hrun', hinner, hagree⟩ := hbody.run
    have hocc (k : Nat) : Failure.Agree Failure.Same (inner.occurs k) (inner'.occurs k) := by
      rw [hinner.occurs_eq]
      exact Failure.agree_refl _
    exact p.parallel_lam hrun hrun' hocc (hbody.hintsAgree_lam hhint hrun hagree)
      (fun context => term_akin p context inner hinner none) max
  | .app loc fn arg, _, .app hfn harg, max =>
    p.parallel_app (term_akin p context fn hfn (some Level.app))
      (term_akin p context arg harg (some 0)) max
termination_by e => e.weight
decreasing_by
  · exact Term.weight_run_lt hrun loc hint
  · exact Term.weight_fn_lt loc fn arg
  · exact Term.weight_arg_lt loc fn arg

/-- **Hints of unused binders do not matter.** Let two terms come to terms that differ only in spans
and in the hints of binders to which no variable refers, with everything carried out. Then, for
every printer, context, level and desk, they have the same text, or fail with the same failure, up
to where a variable without a name was read. And the same fresh names are asked for, in the same
order. -/
theorem format_unused_hints {e e' f f' : Term} (h : e.forceAll = .ok f)
    (h' : e'.forceAll = .ok f') (hakin : f.Akin f') (p : Printer) (context : List String)
    (max : Option Int) (desk : Desk) :
    Failure.Agree Failure.Same ((p.format context e max).runAt desk).1
        ((p.format context e' max).runAt desk).1 ∧
      ((p.format context e max).runAt desk).2.requests =
        ((p.format context e' max).runAt desk).2.requests := by
  have hlazy {e f : Term} (h : e.forceAll = .ok f) :=
    (p.term_parallel context e h max).apart p.style.maxGroups desk desk (.refl desk)
  obtain ⟨hleft, hleftAlike⟩ := hlazy h
  obtain ⟨hright, hrightAlike⟩ := hlazy h'
  obtain ⟨hagree, halike⟩ :=
    (p.term_akin context f hakin max).apart p.style.maxGroups desk desk (.refl desk)
  refine ⟨?_, hleftAlike.requests.trans (halike.requests.trans hrightAlike.requests.symm)⟩
  rw [← hleft.eq, ← hright.eq] at hagree
  exact hagree

/-- An entry is put in for two variables. So it has the same hint in both places, and is printed
like two abstractions with hints of their own. -/
theorem format_unused_hints_pending_entry :
    let constant (hint : String) : Term := .lam none hint (.var none 1)
    let s := Subst.dot (constant "x") (.shift 0)
    let e := Term.pending none s (.app none (.var none 0) (.var none 0))
    let f := Term.app none (constant "x") (constant "x")
    let f' := Term.app none (constant "y") (constant "z")
    let p : Printer := {}
    e.forceAll = .ok f ∧ f'.forceAll = .ok f' ∧ f.Akin f' ∧ f.bare ≠ f'.bare ∧
      Failure.Agree Failure.Same ((p.format ["y"] e none).runAt (.blank 200)).1
        ((p.format ["y"] f' none).runAt (.blank 200)).1 ∧
      ((p.format ["y"] e none).runAt (.blank 200)).2.requests =
        ((p.format ["y"] f' none).runAt (.blank 200)).2.requests := by
  intro constant s e f f' p
  have hconstant (hint : String) : (constant hint).forceAll = .ok (constant hint) :=
    Term.forceAll_lam_eq_ok.2 ⟨_, Term.forceAll_var none 1, rfl⟩
  let part := Term.pending none s (.var none 0)
  have hexpose : e.expose = .ok (.app none part part) := by cbv
  have hpart : part.forceAll = .ok (constant "x") := by
    rw [Term.forceAll_of_expose (show part.expose = .ok (constant "x") by cbv), hconstant]
  have he : e.forceAll = .ok f := by
    rw [Term.forceAll_of_expose hexpose]
    exact Term.forceAll_app_eq_ok.2 ⟨_, hpart, _, hpart, rfl⟩
  have hf' : f'.forceAll = .ok f' :=
    Term.forceAll_app_eq_ok.2 ⟨_, hconstant "y", _, hconstant "z", rfl⟩
  have hakin (hint hint' : String) : (constant hint).Akin (constant hint') := by
    refine .lam ?_ (.var 1)
    rintro ⟨v, hv, hindex⟩
    rw [List.mem_singleton.1 hv] at hindex
    exact absurd hindex (by decide)
  have h : f.Akin f' := .app (hakin "x" "y") (hakin "x" "z")
  exact ⟨he, hf', h, by decide, format_unused_hints he hf' h p ["y"] none (.blank 200)⟩

end Printer

end Nameless
