import Nameless.Proofs.Meaning

/-!
# Forcing is capture-avoiding substitution

Forcing is lazy: it merges the substitutions it meets, swaps replacements in, and leaves new
pending nodes below the head that it brings out. What it brings out nevertheless means what the
term meant before, and carrying everything out gives the meaning itself.

* **A forced head keeps the meaning** (`Term.force_regular`, `Term.expose_regular`), and forcing a
  regular term never fails.
* **Carrying everything out gives the meaning** (`Term.forceAll_regular`), by induction over the
  nodes that are exposed one below the other.
* **So a pending node is its substitution carried out** (`Term.forceAll_pending_same_subst`), with
  the beta step as the case of one argument.
-/

namespace Nameless

/-- A forced head is regular, is not pending, and means the body with the assignment carried
out. -/
theorem Term.force_regular {s : Subst} {e : Term} (hs : s.Regular) (he : e.Regular) :
    ∃ r, e.force s = .ok r ∧ r.Regular ∧ r.meaning = e.meaning.subst s.meaning := by
  fun_induction Term.force s e with
  | case1 s loc t body x hx =>
    obtain ⟨merged, hm, -⟩ := Subst.compose_regular hs t he.1
    rw [hm] at hx
    cases hx
  | case2 s loc t body merged hm ih =>
    obtain ⟨merged', hm', hreg, hmean⟩ := Subst.compose_regular hs t he.1
    rw [hm'] at hm
    cases hm
    obtain ⟨r, hr, hrreg, hrmean⟩ := ih hreg he.2
    refine ⟨r, hr, hrreg, ?_⟩
    rw [hrmean, hmean, Term.meaning, Plain.subst_subst]
  | case3 s loc k x hx =>
    obtain ⟨r, hr, -⟩ := Subst.lookup_regular hs loc k (k := k) he
    rw [hr] at hx
    cases hx
  | case4 s loc k r hl hp ih =>
    obtain ⟨r', hr', hreg, hmean⟩ := Subst.lookup_regular hs loc k (k := k) he
    rw [hr'] at hl
    cases hl
    -- the replacement is forced under the identity, which changes no meaning
    obtain ⟨q, hq, hqreg, hqmean⟩ := ih Subst.regular_identity hreg
    refine ⟨q, hq, hqreg, ?_⟩
    rw [hqmean, Subst.meaning_identity, Plain.subst_var, hmean]
    rfl
  | case5 s loc k r hl hp =>
    obtain ⟨r', hr', hreg, hmean⟩ := Subst.lookup_regular hs loc k (k := k) he
    rw [hr'] at hl
    cases hl
    exact ⟨_, rfl, hreg, hmean⟩
  | case6 s loc hint body hid =>
    refine ⟨_, rfl, he, ?_⟩
    rw [Subst.meaning_of_isIdentity hid, Plain.subst_var]
  | case7 s loc hint body hid =>
    obtain ⟨below, hbelow, hbelowreg, hbelowmean⟩ := Subst.lifted_regular hs
    obtain ⟨body', hbody, hbodyreg, hbodymean⟩ := Term.defer_regular hbelowreg body he
    refine ⟨.lam loc hint body', ?_, hbodyreg, ?_⟩
    · exact Failure.bind_eq_ok.2 ⟨below, hbelow, Failure.bind_eq_ok.2 ⟨body', hbody, rfl⟩⟩
    · rw [Term.meaning, Term.meaning, Plain.subst, hbodymean, hbelowmean]
  | case8 s loc fn arg hid =>
    refine ⟨_, rfl, he, ?_⟩
    rw [Subst.meaning_of_isIdentity hid, Plain.subst_var]
  | case9 s loc fn arg hid =>
    obtain ⟨fn', hfn, hfnreg, hfnmean⟩ := Term.defer_regular hs fn he.1
    obtain ⟨arg', harg, hargreg, hargmean⟩ := Term.defer_regular hs arg he.2
    refine ⟨.app loc fn' arg', ?_, ⟨hfnreg, hargreg⟩, ?_⟩
    · exact Failure.bind_eq_ok.2 ⟨fn', hfn, Failure.bind_eq_ok.2 ⟨arg', harg, rfl⟩⟩
    · rw [Term.meaning, Term.meaning, Plain.subst, hfnmean, hargmean]
  | case10 => exact absurd he id
  | case11 => exact absurd he id

/-- Exposing the head of a regular term succeeds and keeps its meaning. -/
theorem Term.expose_regular {e : Term} (he : e.Regular) :
    ∃ r, e.expose = .ok r ∧ r.Regular ∧ r.meaning = e.meaning := by
  cases e with
  | pending loc s body => exact Term.force_regular he.1 he.2
  | _ => exact ⟨_, rfl, he, rfl⟩

/-- A head that is forced stays regular, and means what the substitution makes of the term. -/
theorem Term.regular_of_force {s : Subst} {e r : Term} (hs : s.Regular) (he : e.Regular)
    (h : e.force s = .ok r) : r.Regular ∧ r.meaning = e.meaning.subst s.meaning := by
  obtain ⟨r', hr', hreg, hmean⟩ := Term.force_regular hs he
  rw [hr'] at h
  cases h
  exact ⟨hreg, hmean⟩

/-- What is exposed of a regular term: it stays regular and keeps its meaning. -/
theorem Term.regular_of_expose {e r : Term} (he : e.Regular) (h : e.expose = .ok r) :
    r.Regular ∧ r.meaning = e.meaning := by
  obtain ⟨r', hr', hreg, hmean⟩ := Term.expose_regular he
  rw [hr'] at h
  cases h
  exact ⟨hreg, hmean⟩

/-- Carrying everything out goes on from what is exposed. -/
theorem Term.forceAll_eq (e : Term) : e.forceAll = e.expose >>= fun
    | .lam loc hint body => do
      let body ← body.forceAll
      return .lam loc hint body
    | .app loc fn arg => do
      let fn ← fn.forceAll
      let arg ← arg.forceAll
      return .app loc fn arg
    | r => .ok r := by
  fun_cases Term.forceAll e with
  | case1 x hx => rw [hx]; rfl
  | case2 loc hint body hexp => rw [hexp]; rfl
  | case3 loc fn arg hexp => rw [hexp]; rfl
  | case4 r hlam happ hexp =>
    rw [hexp]
    cases r with
    | lam loc hint body => exact absurd rfl (hlam loc hint body)
    | app loc fn arg => exact absurd rfl (happ loc fn arg)
    | _ => rfl

/-- **Carrying out everything that is pending gives the meaning**, up to where it was read. -/
theorem Term.forceAll_regular {e : Term} (he : e.Regular) :
    ∃ r, e.forceAll = .ok r ∧ r.Same e.meaning.toTerm := by
  fun_induction Term.forceAll e with
  | case1 e x hx =>
    obtain ⟨r, hr, -⟩ := Term.expose_regular he
    rw [hr] at hx
    cases hx
  | case2 e loc hint body hexp ih =>
    obtain ⟨hreg, hmean⟩ := Term.regular_of_expose he hexp
    obtain ⟨body', hbody, hsame⟩ := ih hreg
    refine ⟨.lam loc hint body', Failure.bind_eq_ok.2 ⟨body', hbody, rfl⟩, ?_⟩
    rw [← hmean]
    simp only [Term.Same, Term.bare, Term.meaning, Plain.toTerm] at hsame ⊢
    rw [hsame]
  | case3 e loc fn arg hexp ihf iha =>
    obtain ⟨hreg, hmean⟩ := Term.regular_of_expose he hexp
    obtain ⟨fn', hfn, hfnsame⟩ := ihf hreg.1
    obtain ⟨arg', harg, hargsame⟩ := iha hreg.2
    refine ⟨.app loc fn' arg',
      Failure.bind_eq_ok.2 ⟨fn', hfn, Failure.bind_eq_ok.2 ⟨arg', harg, rfl⟩⟩, ?_⟩
    rw [← hmean]
    simp only [Term.Same, Term.bare, Term.meaning, Plain.toTerm] at hfnsame hargsame ⊢
    rw [hfnsame, hargsame]
  | case4 e r hlam happ hexp =>
    obtain ⟨hreg, hmean⟩ := Term.regular_of_expose he hexp
    refine ⟨r, rfl, ?_⟩
    rw [← hmean]
    cases r with
    | var loc k =>
      have hk : ((k.toNat : Nat) : Int) = k := Int.toNat_of_nonneg hreg
      simp only [Term.Same, Term.bare, Term.meaning, Plain.toTerm, hk]
    | lam loc hint body => exact absurd rfl (hlam loc hint body)
    | app loc fn arg => exact absurd rfl (happ loc fn arg)
    | pending loc s body => exact absurd (Term.isPending_expose hexp) (by simp [Term.isPending])
    | unknown loc => exact absurd hreg id

/-- Replacing index `0` of the body of an abstraction means the beta step of the textbooks. -/
theorem Term.instantiate_regular {body arg : Term} (hbody : body.Regular) (harg : arg.Regular) :
    ∃ e, body.instantiate arg = .ok e ∧ e.Regular ∧
      e.meaning = body.meaning.instantiate arg.meaning := by
  have hs : (Subst.dot arg .identity).Regular := ⟨harg, Subst.regular_identity⟩
  exact Term.defer_regular hs body hbody

/-- **Forcing carries out capture-avoiding substitution.** On a regular substitution `s` and a
regular term `e`, forcing succeeds with a head that is not pending; carrying everything out in `e`,
and in `e` under a pending `s`, succeeds and gives the plain term that `e` means, and that term
with the assignment of `s` carried out; and a beta step gives the body with the argument for
index `0`. -/
theorem Term.forceAll_pending_same_subst {s : Subst} {e : Term} (hs : s.Regular) (he : e.Regular)
    (loc : Option Span) :
    (∃ r, e.force s = .ok r ∧ r.isPending = false) ∧
    (∃ r, e.forceAll = .ok r ∧ r.Same e.meaning.toTerm) ∧
    (∃ r, (Term.pending loc s e).forceAll = .ok r ∧ r.Same (e.meaning.subst s.meaning).toTerm) ∧
    ∀ arg : Term, arg.Regular → ∃ d r, e.instantiate arg = .ok d ∧ d.forceAll = .ok r ∧
      r.Same (e.meaning.instantiate arg.meaning).toTerm := by
  have hpending : (Term.pending loc s e).Regular := ⟨hs, he⟩
  refine ⟨?_, Term.forceAll_regular he, Term.forceAll_regular hpending, ?_⟩
  · obtain ⟨r, hr, -⟩ := Term.force_regular hs he
    exact ⟨r, hr, Term.isPending_force hr⟩
  · intro arg harg
    obtain ⟨d, hd, hdreg, hdmean⟩ := Term.instantiate_regular he harg
    obtain ⟨r, hr, hsame⟩ := Term.forceAll_regular hdreg
    rw [hdmean] at hsame
    exact ⟨d, r, hd, hr, hsame⟩

/-- A pending entry, itself over an abstraction, goes below two binders: `(λ y. 1 2)` shifted by
one stands for index `0` in `λ x. λ z. 2`. -/
theorem Term.forceAll_pending_entry_below_binders :
    let entry := Term.pending none (.shift 1)
      (.lam none "y" (.app none (.var none 1) (.var none 2)))
    let s := Subst.dot entry (.shift 5)
    let e := Term.lam none "x" (.lam none "z" (.var none 2))
    s.Regular ∧ e.Regular ∧
      ∃ r, (Term.pending none s e).forceAll = .ok r ∧ r.Same (.lam none "x" (.lam none "z"
        (.lam none "y" (.app none (.var none 4) (.var none 5))))) :=
  ⟨by decide, by decide,
    (Term.forceAll_pending_same_subst (by decide) (by decide) none).2.2.1⟩

end Nameless
