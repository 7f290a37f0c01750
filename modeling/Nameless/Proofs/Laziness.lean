import Nameless.Proofs.CarryingOut
import Nameless.Proofs.SideBySide

/-!
# Printing does not depend on what is pending

A printer meets pending nodes in four places: as the term to be printed, between the abstractions of
a run, in the search for the variables that are used, and on a full page, where they are left out
unseen. In each of them a pending node is treated as what it comes to. So a term prints like the
term with everything carried out by hand, and also fails like it.

* **The term and what it comes to are printed side by side** (`Printer.term_parallel`), by induction
  on the weight of the term, on any page and in any context.
* **So the texts are the same, the failures, and the fresh names that are asked for**
  (`Printer.format_eq_of_forceAll`).
-/

namespace Nameless.Printer

open Print

/-- A term that is about to be printed on a full page is left out, so looking at the page before
makes no difference. -/
theorem term_eq_unlessFull (p : Printer) (context : List String) (e : Term) (max : Option Int) :
    p.term context e max =
      (do if (← page).isFull then skip e.kind else p.term context e max) := by
  funext desk
  show (p.term context e max).runAt desk =
    (if desk.page.isFull then skip e.kind else p.term context e max).runAt desk
  by_cases hfull : desk.page.isFull = true
  · rw [if_pos hfull]
    exact p.runAt_term_of_full context e max hfull
  · rw [if_neg hfull]

/-- **A term and what it comes to are printed side by side.** -/
theorem term_parallel (p : Printer) (context : List String) : (e : Term) → {f : Term} →
    e.forceAll = .ok f → (max : Option Int) →
    Parallel Eq (p.term context e max) (p.term context f max)
  | .var loc k, f, h, max => by
    rw [Term.forceAll_var] at h
    cases h
    exact p.parallel_var rfl max
  | .pending loc s body, f, h, max => by
    obtain ⟨r, hr, hf⟩ := Term.exists_expose_of_forceAll h
    have hforce : body.force s = .ok r := hr
    -- the head that is exposed is printed in its place, after a second look at the page
    have hnext := term_parallel p context r hf max
    rw [term_eq_unlessFull p context f, term]
    refine Parallel.unlessFull ?_ _ _
    rw [hforce]
    exact hnext
  | .lam loc hint body, f, h, max => by
    obtain ⟨body', hbody, rfl⟩ := Term.forceAll_lam_eq_ok.1 h
    obtain ⟨hints, inner, inner', hrun, hinner, hrun'⟩ := Term.run_of_forceAll hbody
    have hocc (k : Nat) : Failure.Agree Eq (inner.occurs k) (inner'.occurs k) := by
      rw [Term.occurs_of_forceAll hinner]
      exact Failure.agree_refl _
    exact p.parallel_lam hrun hrun' hocc (.refl inner 0 _)
      (fun context => term_parallel p context inner hinner none) max
  | .app loc fn arg, f, h, max => by
    obtain ⟨fn', hfn, arg', harg, rfl⟩ := Term.forceAll_app_eq_ok.1 h
    exact p.parallel_app (term_parallel p context fn hfn (some Level.app))
      (term_parallel p context arg harg (some 0)) max
  | .unknown loc, f, h, max => by
    rw [Term.forceAll_unknown] at h
    cases h
    rw [term]
    exact (parallel_throw rfl).unlessFull _ _
termination_by e => e.weight
decreasing_by
  · exact Term.weight_force_lt hforce loc
  · exact Term.weight_run_lt hrun loc hint
  · exact Term.weight_fn_lt loc fn arg
  · exact Term.weight_arg_lt loc fn arg

/-- **Printing lazily is printing what the term comes to.** If everything in `e` can be carried out
and gives `f`, then, for every printer, context, level and desk, the text of `e` has the same
outcome as the text of `f`: the same text, or the same failure with all that it says. And the same
fresh names are asked for, in the same order. -/
theorem format_eq_of_forceAll {e f : Term} (h : e.forceAll = .ok f) (p : Printer)
    (context : List String) (max : Option Int) (desk : Desk) :
    ((p.format context e max).runAt desk).1 = ((p.format context f max).runAt desk).1 ∧
      ((p.format context e max).runAt desk).2.requests =
        ((p.format context f max).runAt desk).2.requests := by
  have hparallel := (p.term_parallel context e h max).apart p.style.maxGroups
  obtain ⟨hagree, halike⟩ := hparallel desk desk (.refl desk)
  exact ⟨hagree.eq, halike.requests⟩

/-- A pending node between two abstractions hides that they are one run, and a pending entry that
the variable of the first one is used: both show in `λ x. λ x. 1`. -/
theorem format_eq_of_forceAll_hidden_run :
    let e := Term.lam none "x"
      (.pending none (.dot (.var none 0) (.shift 2)) (.lam none "x" (.var none 1)))
    let f := Term.lam none "x" (.lam none "x" (.var none 1))
    let p : Printer := {}
    e.forceAll = .ok f ∧
      ((p.format [] e none).runAt (.blank 200)).1 = ((p.format [] f none).runAt (.blank 200)).1 ∧
      ((p.format [] e none).runAt (.blank 200)).2.requests =
        ((p.format [] f none).runAt (.blank 200)).2.requests := by
  intro e f p
  let lifted := Subst.dot (.var none 0) (.dot (.pending none (.shift 1) (.var none 0)) (.shift 3))
  have hsecond : (Term.pending none (.dot (.var none 0) (.shift 2))
      (.lam none "x" (.var none 1))).expose =
        .ok (.lam none "x" (.pending none lifted (.var none 1))) := by cbv
  have hvar : (Term.pending none lifted (.var none 1)).expose = .ok (.var none 1) := by cbv
  have hforce : e.forceAll = .ok f := by
    refine Term.forceAll_lam_eq_ok.2 ⟨_, ?_, rfl⟩
    rw [Term.forceAll_of_expose hsecond]
    refine Term.forceAll_lam_eq_ok.2 ⟨_, ?_, rfl⟩
    rw [Term.forceAll_of_expose hvar, Term.forceAll_var]
  exact ⟨hforce, format_eq_of_forceAll hforce p [] none (.blank 200)⟩

end Nameless.Printer
