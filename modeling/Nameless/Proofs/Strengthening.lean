import Nameless.Proofs.CarryingOut
import Nameless.Proofs.Composition
import Nameless.Proofs.Lowering

/-!
# Shifting down where nothing is lost

A shift down by `n` has no room for the indices below `n`. If none of them is free in what a term
comes to, every free variable can be lowered by `n`, however many binders are above it. Whatever
else is in the term does not matter: entries of substitutions that could not be shifted down are
dropped before anybody looks at them.

* **A plain term in which the first `n` indices are not free can be lowered**, and raising the
  result again gives it back (`Plain.exists_lower`).
* **So shifting down takes `n` off every free variable** (`Term.forceAll_shift_neg_lowered`). It
  never fails there, shifting up again brings back what was there before, and it undoes any shift
  up by as much.
-/

namespace Nameless

/-- Where none of the first `n` free indices is used, `n` can be taken off all of them, and adding
`n` again gives the term back. -/
theorem Plain.exists_lower {n : Nat} {e : Plain} (d : Nat) (h : ∀ k < n, e.free (k + d) = false) :
    ∃ q, e.lower n d = some q ∧ q.rename (raise n d) = e := by
  induction e generalizing d with
  | var i =>
    by_cases hbound : i < d
    · refine ⟨var i, ?_, ?_⟩
      · rw [lower, if_pos hbound]
      · rw [rename, raise, if_pos hbound]
    · have hroom : n + d ≤ i := by
        refine Nat.le_of_not_lt fun hlt => ?_
        have hfree := h (i - d) (by omega)
        rw [free, Nat.sub_add_cancel (Nat.le_of_not_lt hbound), beq_self_eq_true] at hfree
        cases hfree
      refine ⟨var (i - n), ?_, ?_⟩
      · rw [lower, if_neg hbound, if_neg (by omega)]
      · rw [rename, raise, if_neg (by omega), Nat.sub_add_cancel (by omega)]
  | lam hint body ih =>
    obtain ⟨q, hq, hback⟩ := ih (d + 1) h
    refine ⟨lam hint q, ?_, ?_⟩
    · rw [lower, hq]
      rfl
    · rw [rename, liftIndex_raise, hback]
  | app fn arg ihf iha =>
    simp only [free, Bool.or_eq_false_iff] at h
    obtain ⟨q, hq, hback⟩ := ihf d fun k hk => (h k hk).1
    obtain ⟨q', hq', hback'⟩ := iha d fun k hk => (h k hk).2
    refine ⟨app q q', ?_, ?_⟩
    · rw [lower, hq, hq']
      rfl
    · rw [rename, hback, hback']

mutual

/-- What holds of every index holds of those that a term is written with. -/
theorem Term.indices_of_forall {P : Int → Prop} (h : ∀ i, P i) : (e : Term) → e.Indices P
  | .var _ index => h index
  | .lam _ _ body => Term.indices_of_forall h body
  | .app _ fn arg => ⟨Term.indices_of_forall h fn, Term.indices_of_forall h arg⟩
  | .pending _ s body => ⟨Subst.indices_of_forall h s, Term.indices_of_forall h body⟩
  | .unknown _ => trivial

@[inherit_doc Term.indices_of_forall]
theorem Subst.indices_of_forall {P : Int → Prop} (h : ∀ i, P i) : (s : Subst) → s.Indices P
  | .shift _ => trivial
  | .dot head rest => ⟨Term.indices_of_forall h head, Subst.indices_of_forall h rest⟩
  | .unknown => trivial

end

namespace Term

/-- The term, below `d` binders, with `n` taken off the index of every variable that none of the
binders binds. -/
def lowered (n : Int) : Nat → Term → Term
  | d, var loc index => if index < d then var loc index else var loc (index - n)
  | d, lam loc hint body => lam loc hint (body.lowered n (d + 1))
  | d, app loc fn arg => app loc (fn.lowered n d) (arg.lowered n d)
  | _, e => e

/-- Lowering a term lowers the plain term that it is up to spans. -/
theorem Same.lowered {n d : Nat} {p q : Plain} (hq : p.lower n d = some q) {f : Term}
    (hf : f.Same p.toTerm) : (f.lowered n d).Same q.toTerm := by
  induction p generalizing d q f with
  | var i =>
    cases f with
    | var loc index =>
      obtain rfl : index = i := (Term.var.inj hf).2
      simp only [Plain.lower] at hq
      split at hq
      · rename_i hbound
        cases hq
        rw [Term.lowered, if_pos (by omega)]
        rfl
      · rename_i hfree
        split at hq
        · cases hq
        · cases hq
          have hindex : (i : Int) - n = ((i - n : Nat) : Int) := by omega
          rw [Term.lowered, if_neg (by omega), hindex]
          rfl
    | _ => cases hf
  | lam hint body ih =>
    cases f with
    | lam loc hint' body' =>
      obtain ⟨-, rfl, hbody⟩ := Term.lam.inj hf
      obtain ⟨q', hq', rfl⟩ := Option.map_eq_some_iff.1 hq
      exact congrArg (Term.lam none hint') (ih hq' hbody)
    | _ => cases hf
  | app fn arg ihf iha =>
    cases f with
    | app loc fn' arg' =>
      obtain ⟨-, hfn, harg⟩ := Term.app.inj hf
      obtain ⟨q', hq', hq⟩ := Option.bind_eq_some_iff.1 hq
      obtain ⟨q'', hq'', rfl⟩ := Option.map_eq_some_iff.1 hq
      have hfn' : (fn'.lowered n d).bare = q'.toTerm.bare := ihf hq' hfn
      have harg' : (arg'.lowered n d).bare = q''.toTerm.bare := iha hq'' harg
      show Term.app none (fn'.lowered n d).bare (arg'.lowered n d).bare = _
      rw [hfn', harg']
      rfl
    | _ => cases hf

/-- Shifting up and carrying everything out raises the meaning. -/
theorem exists_forceAll_shift {e : Term} (he : e.Regular) (n : Nat) :
    ∃ d g, e.shift n = .ok d ∧ d.forceAll = .ok g ∧
      d.Regular ∧ d.meaning = e.meaning.rename (Plain.raise n 0) := by
  have hs : (Subst.shift n).Regular := Int.natCast_nonneg n
  obtain ⟨d, hd, hreg, hmean⟩ := defer_regular hs e he
  obtain ⟨g, hg, -⟩ := forceAll_regular hreg
  refine ⟨d, g, hd, hg, hreg, ?_⟩
  rw [hmean, Plain.rename_eq_subst]
  rfl

/-- Shifting down and carrying everything out lowers the meaning, if it can be lowered. -/
theorem exists_forceAll_shift_neg {e : Term} (he : e.Regular) {n : Nat} {q : Plain}
    (hq : e.meaning.lower n 0 = some q) :
    ∃ r, (e.shift (-n) >>= forceAll) = .ok r ∧ r.Same q.toTerm := by
  have hall : e.Indices fun _ => True := indices_of_forall (fun _ => trivial) e
  have hcarry := carriesOut_shift_neg (n := n) he hall
  rwa [hq] at hcarry

/-- Shifting down undoes a shift up. -/
theorem exists_forceAll_shift_neg_of_raised {e : Term} (he : e.Regular) {n : Nat} {p : Plain}
    (hp : e.meaning = p.rename (Plain.raise n 0)) :
    ∃ r, (e.shift (-n) >>= forceAll) = .ok r ∧ r.Same p.toTerm := by
  refine exists_forceAll_shift_neg he ?_
  rw [hp]
  exact Plain.lower_rename_raise (Nat.le_refl 0) (Nat.zero_le _) p

/-- **Shifting down takes `n` off every free variable, where there is room.** Let `e` be regular and
come to `f`. If none of the first `n` indices is free in `f`, then shifting `e` down by `n` and
carrying everything out does not fail: up to spans it gives `f` with every free variable lowered
by `n` and every bound one as it was, and shifting that up by `n` comes to `f` again. So shifting
down undoes shifting up, in the shifted term as it stands and in what it comes to. -/
theorem forceAll_shift_neg_lowered {e : Term} (he : e.Regular) (n : Nat) :
    ∃ f d g, e.forceAll = .ok f ∧ e.shift n = .ok d ∧ d.forceAll = .ok g ∧
      ((∀ k : Nat, k < n → f.occurs k = .ok false) →
        ∃ r b, (e.shift (-n) >>= forceAll) = .ok r ∧ r.Same (f.lowered n 0) ∧
          (r.shift n >>= forceAll) = .ok b ∧ b.Same f) ∧
      (∃ r, (d.shift (-n) >>= forceAll) = .ok r ∧ r.Same f) ∧
      ∃ r, (g.shift (-n) >>= forceAll) = .ok r ∧ r.Same f := by
  obtain ⟨f, hf, hfsame⟩ := forceAll_regular he
  obtain ⟨d, g, hd, hg, hdreg, hdmean⟩ := exists_forceAll_shift he n
  refine ⟨f, d, g, hf, hd, hg, ?_, ?_, ?_⟩
  · intro hunused
    have hfree : ∀ k < n, e.meaning.free (k + 0) = false := by
      intro k hk
      have hocc := hunused k hk
      rw [← occurs_of_forceAll hf, occurs_regular he] at hocc
      exact Except.ok.inj hocc
    obtain ⟨q, hq, hback⟩ := Plain.exists_lower 0 hfree
    obtain ⟨r, hr, hrsame⟩ := exists_forceAll_shift_neg he hq
    obtain ⟨u, b, hu, hb, hureg, humean⟩ := exists_forceAll_shift hrsame.regular n
    obtain ⟨b', hb', hbsame⟩ := forceAll_regular hureg
    rw [hb] at hb'
    cases hb'
    rw [humean, hrsame.meaning_eq, hback] at hbsame
    exact ⟨r, b, hr, hrsame.trans (hfsame.lowered hq).symm, Failure.bind_eq_ok.2 ⟨u, hu, hb⟩,
      hbsame.trans hfsame.symm⟩
  · obtain ⟨r, hr, hrsame⟩ := exists_forceAll_shift_neg_of_raised hdreg hdmean
    exact ⟨r, hr, hrsame.trans hfsame.symm⟩
  · obtain ⟨g', hg', hgreg, hgmean⟩ := forceAll_meaning hdreg
    rw [hg] at hg'
    cases hg'
    rw [hdmean] at hgmean
    obtain ⟨r, hr, hrsame⟩ := exists_forceAll_shift_neg_of_raised hgreg hgmean
    exact ⟨r, hr, hrsame.trans hfsame.symm⟩

/-- Below `λ x. 0 2`, index `0` is not used, and the substitution replaces it by a variable that
could not be shifted down. The other free index comes to `3`, below one binder, and is lowered to
`0`. -/
theorem forceAll_shift_neg_lowered_unused_entry :
    let e := pending none (.dot (var none 0) (.shift 3))
      (lam none "x" (app none (var none 0) (var none 2)))
    let f := lam none "x" (app none (var none 0) (var none 4))
    e.Regular ∧ e.forceAll = .ok f ∧ (∀ k : Nat, k < 3 → f.occurs k = .ok false) ∧
      ∃ r b, (e.shift (-((3 : Nat) : Int)) >>= forceAll) = .ok r ∧
        r.Same (lam none "x" (app none (var none 0) (var none 1))) ∧
        (r.shift ((3 : Nat) : Int) >>= forceAll) = .ok b ∧ b.Same f := by
  intro e f
  let s := Subst.dot (var none 0) (.dot (pending none (.shift 1) (var none 0)) (.shift 4))
  have he : e.Regular := by decide
  have hforce : e.forceAll = .ok f := by
    have hhead : e.expose =
        .ok (lam none "x" (pending none s (app none (var none 0) (var none 2)))) := by
      simp only [e, s]
      cbv
    have hbody : (pending none s (app none (var none 0) (var none 2))).expose =
        .ok (app none (pending none s (var none 0)) (pending none s (var none 2))) := by
      simp only [s]
      cbv
    have hfn : (pending none s (var none 0)).expose = .ok (var none 0) := by
      simp only [s]
      cbv
    have harg : (pending none s (var none 2)).expose = .ok (var none 4) := by
      simp only [s]
      cbv
    rw [forceAll_of_expose hhead, forceAll_lam_eq_ok]
    refine ⟨_, ?_, rfl⟩
    rw [forceAll_of_expose hbody, forceAll_app_eq_ok]
    refine ⟨_, ?_, _, ?_, rfl⟩
    · rw [forceAll_of_expose hfn, forceAll_var]
    · rw [forceAll_of_expose harg, forceAll_var]
  have hunused : ∀ k : Nat, k < 3 → f.occurs k = .ok false := by
    intro k hk
    have hf : f.Regular := by decide
    have hfree : ∀ k < 3, f.meaning.free k = false := by decide
    rw [occurs_regular hf, hfree k hk]
  obtain ⟨f', -, -, hf', -, -, hlowered, -⟩ := forceAll_shift_neg_lowered he 3
  rw [hforce] at hf'
  cases hf'
  obtain ⟨r, b, hr, hsame, hb, hback⟩ := hlowered hunused
  exact ⟨he, hforce, hunused, r, b, hr, hsame, hb, hback⟩

end Term

end Nameless
