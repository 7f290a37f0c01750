import Nameless.Proofs.Occurrence

/-!
# Shifting down

A shift by a negative amount is only checked where it meets a variable: the shifted index must not
be negative. Below a binder the pending amount is smaller by one, and the check does not know how
many binders were crossed on the way.

* **Taking `n` off every free index** of a plain term is `Plain.lower`. It gives up at a variable
  whose index, as it stands below its binders (`Plain.HasVar`), is less than `n`; it does not notice
  that an index falls among the bound ones.
* **Forcing a term that was shifted down does just this to its meaning**
  (`Term.Lowers.forceAll`). The two runs are kept in step by a relation between what is pending
  and what it stands for before the lowering (`Term.Lowers`, `Subst.Lowers`).
* **So shifting down fails exactly at a shallow variable**
  (`Term.forceAll_shift_neg_fails_iff`): one with free index `k` below `d` binders and
  `k + d < n`. A free index `k < n` that only occurs deeper is captured instead
  (`Term.forceAll_shift_neg_captures`).
-/

namespace Nameless

/-! ## Lowering plain terms -/

namespace Plain

/-- Takes `n` off every index from `d` on; those below `d` are bound. There is no result if an
index from `d` on is less than `n`. -/
def lower (n : Nat) : Nat → Plain → Option Plain
  | d, var i => if i < d then some (var i) else if i < n then none else some (var (i - n))
  | d, lam hint body => (body.lower n (d + 1)).map (lam hint)
  | d, app fn arg => (fn.lower n d).bind fun fn => (arg.lower n d).map (app fn)

/-- A term holds a variable of index `i` below exactly `d` binders. -/
def HasVar : Plain → Nat → Nat → Prop
  | var k, d, i => d = 0 ∧ k = i
  | lam _ body, d, i => ∃ c, d = c + 1 ∧ body.HasVar c i
  | app fn arg, d, i => fn.HasVar d i ∨ arg.HasVar d i

/-- Adds `n` to every index from `a` on. -/
def raise (n a : Nat) : Nat → Nat := fun k => if k < a then k else k + n

/-- Below a binder, raising starts at an index that is one more. -/
theorem liftIndex_raise (n a : Nat) : liftIndex (raise n a) = raise n (a + 1) := by
  funext k
  cases k with
  | zero => simp [raise]
  | succ k =>
    simp only [liftIndex_succ, raise, Nat.add_lt_add_iff_right]
    split <;> omega

/-- Lowering undoes raising, if the variables that were raised lie behind the bound ones and those
that were not are bound. -/
theorem lower_rename_raise {n a d : Nat} (hle : a ≤ d) (hge : d ≤ a + n) (e : Plain) :
    (e.rename (raise n a)).lower n d = some e := by
  induction e generalizing a d with
  | var k =>
    simp only [rename, lower, raise]
    by_cases hk : k < a
    · rw [if_pos hk, if_pos (by omega)]
    · rw [if_neg hk, if_neg (by omega), if_neg (by omega), Nat.add_sub_cancel]
  | lam hint body ih =>
    rw [rename, lower, liftIndex_raise, ih (by omega) (by omega)]
    rfl
  | app fn arg ihf iha =>
    rw [rename, lower, ihf hle hge, iha hle hge]
    rfl

/-- Lowering gives up exactly if some variable that is not bound has an index less than `n`, as it
stands below its binders. -/
theorem lower_eq_none_iff (n c : Nat) (e : Plain) :
    e.lower n c = none ↔ ∃ d i, e.HasVar d i ∧ c + d ≤ i ∧ i < n := by
  induction e generalizing c with
  | var k =>
    simp only [lower, HasVar]
    constructor
    · intro h
      by_cases hc : k < c
      · rw [if_pos hc] at h
        cases h
      · by_cases hn : k < n
        · exact ⟨0, k, ⟨rfl, rfl⟩, by omega, hn⟩
        · rw [if_neg hc, if_neg hn] at h
          cases h
    · rintro ⟨_, _, ⟨rfl, rfl⟩, hc, hn⟩
      rw [if_neg (by omega), if_pos hn]
  | lam hint body ih =>
    simp only [lower, HasVar, Option.map_eq_none_iff, ih]
    constructor
    · rintro ⟨d, i, h, hc, hn⟩
      exact ⟨d + 1, i, ⟨d, rfl, h⟩, by omega, hn⟩
    · rintro ⟨_, i, ⟨d, rfl, h⟩, hc, hn⟩
      exact ⟨d, i, h, by omega, hn⟩
  | app fn arg ihf iha =>
    have hsplit : (app fn arg).lower n c = none ↔ fn.lower n c = none ∨ arg.lower n c = none := by
      simp only [lower]
      cases fn.lower n c with
      | none => simp
      | some fn' => simp
    rw [hsplit, ihf, iha]
    simp only [HasVar, or_and_right, exists_or]

end Plain

/-! ## The indices that a term is written with -/

mutual

/-- Every index that is written in a term has a property. -/
def Term.Indices (P : Int → Prop) : Term → Prop
  | .var _ index => P index
  | .lam _ _ body => body.Indices P
  | .app _ fn arg => fn.Indices P ∧ arg.Indices P
  | .pending _ s body => s.Indices P ∧ body.Indices P
  | .unknown _ => True

/-- Every index that is written in a term of a substitution has a property. -/
def Subst.Indices (P : Int → Prop) : Subst → Prop
  | .shift _ => True
  | .dot head rest => head.Indices P ∧ rest.Indices P
  | .unknown => True

end

/-! ## What is pending, and what it stands for before the lowering -/

mutual

/-- Below `d` binders, the term stands for the plain term from which `n` is still to be taken off.
Either that has been done already, without capturing anything, or a lowering substitution waits to
be applied to a regular body. -/
inductive Term.Lowers (n : Nat) (P : Int → Prop) : Nat → Term → Plain → Prop
  | settled {d a : Nat} {e : Term} (he : e.Regular) (hle : a ≤ d) (hge : d ≤ a + n) :
    Term.Lowers n P d e (e.meaning.rename (Plain.raise n a))
  | waiting {d : Nat} {loc : Option Span} {s : Subst} {σ : Plain.Assignment} {body : Term}
    (hs : Subst.Lowers n P d s σ) (hbody : body.Regular) (hP : body.Indices P) :
    Term.Lowers n P d (.pending loc s body) (body.meaning.subst σ)

/-- Below `d` binders, the substitution stands for the assignment from whose terms `n` is still to
be taken off. Only its last shift is lowered, and that reaches past the binders. -/
inductive Subst.Lowers (n : Nat) (P : Int → Prop) : Nat → Subst → Plain.Assignment → Prop
  | shift {d m : Nat} {amount : Int} (hm : d ≤ m) (hamount : amount = m - n) :
    Subst.Lowers n P d (.shift amount) (.shift m)
  | dot {d : Nat} {head : Term} {p : Plain} {rest : Subst} {σ : Plain.Assignment}
    (hhead : Term.Lowers n P d head p) (hrest : Subst.Lowers n P d rest σ) :
    Subst.Lowers n P d (.dot head rest) (.cons p σ)

end

/-- A failure at a variable whose index, one of those with the property, was lowered by at most
`n` and became negative. -/
def FailsLowering (n : Nat) (P : Int → Prop) {α : Type} (x : Except Failure α) : Prop :=
  ∃ index shifted loc, x = .error (.raise (.negative index shifted loc)) ∧ P index ∧
    -(n : Int) ≤ shifted ∧ shifted < 0

variable {n d : Nat} {P : Int → Prop}

/-- What fails first decides how the whole fails. -/
theorem FailsLowering.bind {α β : Type} {x : Except Failure α} (h : FailsLowering n P x)
    (f : α → Except Failure β) : FailsLowering n P (x >>= f) := by
  obtain ⟨index, shifted, loc, rfl, h⟩ := h
  exact ⟨index, shifted, loc, rfl, h⟩

/-! ## The operations, in step -/

/-- A lowering substitution that is the identity has come to lower by what it raises. -/
theorem Subst.Lowers.settle {s : Subst} {σ : Plain.Assignment} (hs : s.Lowers n P d σ)
    (hid : s.isIdentity = true) {e : Term} (he : e.Regular) :
    e.Lowers n P d (e.meaning.subst σ) := by
  cases hs with
  | dot hhead hrest => cases hid
  | @shift m amount hm hamount =>
    rw [Subst.isIdentity_shift] at hid
    have hmn : m = n := by omega
    subst hmn
    have hraise : e.meaning.rename (Plain.raise m 0) = e.meaning.subst (.shift m) :=
      Plain.rename_eq_subst _ _
    rw [← hraise]
    exact .settled he (Nat.zero_le d) (by omega)

/-- Shifting first moves the indices of the assignment on. -/
theorem Subst.Lowers.afterShift {s : Subst} {σ : Plain.Assignment} (hs : s.Lowers n P d σ)
    {k : Int} (hk : 0 ≤ k) :
    ∃ r, s.afterShift k = .ok r ∧ r.Lowers n P d fun j => σ (j + k.toNat) := by
  fun_induction Subst.afterShift s k generalizing σ with
  | case1 amount k =>
    cases hs with
    | @shift m amount hm hamount =>
      have hσ : (fun j => Plain.Assignment.shift m (j + k.toNat)) =
          Plain.Assignment.shift (m + k.toNat) := by
        funext j
        simp only [Plain.Assignment.shift_apply, Plain.var.injEq]
        omega
      refine ⟨_, rfl, ?_⟩
      rw [hσ]
      exact .shift (by omega) (by omega)
  | case2 head rest => exact ⟨_, rfl, hs⟩
  | case3 head rest k h0 hneg => omega
  | case4 head rest k h0 hneg ih =>
    cases hs with
    | @dot head p rest σ hhead hrest =>
      obtain ⟨r, hr, hlow⟩ := ih hrest (by omega)
      have hσ : (fun j => Plain.Assignment.cons p σ (j + k.toNat)) =
          fun j => σ (j + (k - 1).toNat) := by
        funext j
        have hj : j + k.toNat = j + (k - 1).toNat + 1 := by omega
        rw [hj, Plain.Assignment.cons_succ]
      rw [hσ]
      exact ⟨r, hr, hlow⟩
  | case5 => cases hs
  | case6 => cases hs

/-- A regular term that is not pending, with a lowering substitution put over it. -/
theorem Subst.Lowers.defer_of_not_pending {s : Subst} {σ : Plain.Assignment}
    (hs : s.Lowers n P d σ) {e : Term} (he : e.Regular) (hP : e.Indices P)
    (hp : e.isPending = false) : ∃ r, e.defer s = .ok r ∧ r.Lowers n P d (e.meaning.subst σ) := by
  refine ⟨_, Term.defer_of_not_pending hp s, ?_⟩
  split
  · rename_i hid
    exact hs.settle hid he
  · exact .waiting hs he hP

mutual

/-- A lowering substitution after a regular one. -/
theorem Subst.Lowers.compose {s : Subst} {σ : Plain.Assignment} (hs : s.Lowers n P d σ) :
    (t : Subst) → t.Regular → t.Indices P →
    ∃ r, s.compose t = .ok r ∧ r.Lowers n P d fun k => (t.meaning k).subst σ
  | .shift k, ht, _ => hs.afterShift ht
  | .dot head rest, ht, hP => by
    obtain ⟨head', hhead, hheadlow⟩ := hs.defer head ht.1 hP.1
    obtain ⟨rest', hrest, hrestlow⟩ := hs.compose rest ht.2 hP.2
    refine ⟨.dot head' rest',
      Failure.bind_eq_ok.2 ⟨head', hhead, Failure.bind_eq_ok.2 ⟨rest', hrest, rfl⟩⟩, ?_⟩
    have hσ : (fun k => ((Subst.dot head rest).meaning k).subst σ) =
        Plain.Assignment.cons (head.meaning.subst σ) fun k => (rest.meaning k).subst σ := by
      funext k
      cases k with
      | zero => rfl
      | succ k => rfl
    rw [hσ]
    exact .dot hheadlow hrestlow
  | .unknown, ht, _ => absurd ht id

/-- A lowering substitution put over a regular term. -/
theorem Subst.Lowers.defer {s : Subst} {σ : Plain.Assignment} (hs : s.Lowers n P d σ) :
    (e : Term) → e.Regular → e.Indices P →
    ∃ r, e.defer s = .ok r ∧ r.Lowers n P d (e.meaning.subst σ)
  | .pending loc t body, he, hP => by
    rw [Term.defer]
    split
    · rename_i hid
      exact ⟨_, rfl, hs.settle hid he⟩
    · obtain ⟨merged, hm, hlow⟩ := hs.compose t he.1 hP.1
      refine ⟨.pending loc merged body, Failure.bind_eq_ok.2 ⟨merged, hm, rfl⟩, ?_⟩
      rw [Term.meaning, Plain.subst_subst]
      exact .waiting hlow he.2 hP.2
  | .var _ _, he, hP => hs.defer_of_not_pending he hP rfl
  | .lam _ _ _, he, hP => hs.defer_of_not_pending he hP rfl
  | .app _ _ _, he, hP => hs.defer_of_not_pending he hP rfl
  | .unknown _, he, _ => absurd he id

end

mutual

/-- The terms of a lowering substitution, taken past one more binder. -/
theorem Subst.Lowers.past_binder : (s : Subst) → {σ : Plain.Assignment} → s.Lowers n P d σ →
    ∃ r, Subst.compose (.shift 1) s = .ok r ∧
      r.Lowers n P (d + 1) fun k => (σ k).rename (· + 1)
  | .shift amount, _, .shift (m := m) hm hamount => by
    have hσ : (fun k => (Plain.Assignment.shift m k).rename (· + 1)) =
        Plain.Assignment.shift (m + 1) := by
      funext k
      rfl
    refine ⟨.shift (1 + amount), rfl, ?_⟩
    rw [hσ]
    exact .shift (by omega) (by omega)
  | .dot head rest, _, .dot (p := p) (σ := σ) hhead hrest => by
    obtain ⟨head', hhead', hheadlow⟩ := Term.Lowers.past_binder head hhead
    obtain ⟨rest', hrest', hrestlow⟩ := Subst.Lowers.past_binder rest hrest
    refine ⟨.dot head' rest',
      Failure.bind_eq_ok.2 ⟨head', hhead', Failure.bind_eq_ok.2 ⟨rest', hrest', rfl⟩⟩, ?_⟩
    have hσ : (fun k => (Plain.Assignment.cons p σ k).rename (· + 1)) =
        Plain.Assignment.cons (p.rename (· + 1)) fun k => (σ k).rename (· + 1) := by
      funext k
      cases k with
      | zero => rfl
      | succ k => rfl
    rw [hσ]
    exact .dot hheadlow hrestlow

/-- A term with a lowering inside it, taken past one more binder. -/
theorem Term.Lowers.past_binder : (e : Term) → {p : Plain} → e.Lowers n P d p →
    ∃ r, e.defer (.shift 1) = .ok r ∧ r.Lowers n P (d + 1) (p.rename (· + 1))
  | .pending loc s body, _, .waiting (σ := σ) hs hbody hP => by
    obtain ⟨merged, hm, hlow⟩ := Subst.Lowers.past_binder s hs
    refine ⟨.pending loc merged body, ?_, ?_⟩
    · rw [Term.defer, if_neg (by simp)]
      exact Failure.bind_eq_ok.2 ⟨merged, hm, rfl⟩
    · rw [Plain.rename_subst]
      exact .waiting hlow hbody hP
  | e, _, .settled (a := a) he hle hge => by
    have hone : (Subst.shift 1).Regular := by simp [Subst.Regular]
    obtain ⟨r, hr, hreg, hmean⟩ := Term.defer_regular hone e he
    have hstep : (e.meaning.rename (Plain.raise n a)).rename (· + 1) =
        r.meaning.rename (Plain.raise n (a + 1)) := by
      rw [hmean, ← Plain.liftIndex_raise, Plain.rename_rename, Plain.rename_eq_subst,
        Plain.rename_subst]
      rfl
    rw [hstep]
    exact ⟨r, hr, .settled hreg (by omega) (by omega)⟩

end

/-- A lowering substitution taken below a binder. -/
theorem Subst.Lowers.lifted {s : Subst} {σ : Plain.Assignment} (hs : s.Lowers n P d σ) :
    ∃ r, s.lifted = .ok r ∧ r.Lowers n P (d + 1) σ.lift := by
  obtain ⟨rest, hrest, hlow⟩ := hs.past_binder s
  refine ⟨.dot (.var none 0) rest, Failure.bind_eq_ok.2 ⟨rest, hrest, rfl⟩, ?_⟩
  have hzero : (Term.var none 0).Lowers n P (d + 1)
      ((Term.var none 0).meaning.rename (Plain.raise n (d + 1))) :=
    .settled (Int.le_refl 0) (Nat.le_refl _) (by omega)
  exact .dot hzero hlow

/-- Looking an index up in a lowering substitution: it fails exactly if the last shift is met and
takes off more than there is. -/
theorem Subst.Lowers.lookup (loc : Option Span) {i : Int} (hi : P i) : (s : Subst) →
    {σ : Plain.Assignment} → s.Lowers n P d σ → (k : Nat) →
    (∃ r, s.lookup loc i k = .ok r ∧ r.Lowers n P d (σ k)) ∨
      (FailsLowering n P (s.lookup loc i k) ∧ (σ k).lower n d = none)
  | .shift amount, _, hs, k => by
    cases hs with
    | @shift m _ hm hamount =>
      by_cases hneg : (k : Int) + amount < 0
      · refine .inr ⟨⟨i, k + amount, loc, ?_, hi, by omega, hneg⟩, ?_⟩
        · rw [Subst.lookup, if_pos hneg]
        · rw [Plain.Assignment.shift_apply, Plain.lower, if_neg (by omega), if_pos (by omega)]
      · refine .inl ⟨_, by rw [Subst.lookup, if_neg hneg], ?_⟩
        -- the variable was lowered without being captured: it lies behind `d - n` others
        have hraise : Plain.Assignment.shift m k =
            (Term.var loc (k + amount)).meaning.rename (Plain.raise n (d - n)) := by
          rw [Term.meaning, Plain.rename, Plain.raise, if_neg (by omega),
            Plain.Assignment.shift_apply, Plain.var.injEq]
          omega
        rw [hraise]
        exact .settled (Int.not_lt.1 hneg) (by omega) (by omega)
  | .dot head rest, _, hs, k => by
    cases hs with
    | dot hhead hrest =>
      cases k with
      | zero => exact .inl ⟨head, rfl, hhead⟩
      | succ k =>
        have hstep : (Subst.dot head rest).lookup loc i ((k + 1 : Nat) : Int) =
            rest.lookup loc i k := by
          rw [Subst.lookup, if_neg (by omega)]
          congr 1
          omega
        rw [hstep, Plain.Assignment.cons_succ]
        exact Subst.Lowers.lookup loc hi rest hrest k
  | .unknown, _, hs, _ => by cases hs

/-! ## Forcing, in step -/

/-- An exposed head below `d` binders, and the plain term from which `n` is still to be taken
off. -/
inductive Term.LowersHead (n : Nat) (P : Int → Prop) (d : Nat) : Term → Plain → Prop
  | var {loc : Option Span} {j : Int} {i : Nat} (hj : 0 ≤ j)
    (hlower : (Plain.var i).lower n d = some (.var j.toNat)) :
    Term.LowersHead n P d (.var loc j) (.var i)
  | lam {loc : Option Span} {hint : String} {body : Term} {p : Plain}
    (hbody : body.Lowers n P (d + 1) p) : Term.LowersHead n P d (.lam loc hint body) (.lam hint p)
  | app {loc : Option Span} {fn arg : Term} {p q : Plain} (hfn : fn.Lowers n P d p)
    (harg : arg.Lowers n P d q) : Term.LowersHead n P d (.app loc fn arg) (.app p q)

/-- Where the lowering has been done, it has been done below the head as well. -/
theorem Term.Regular.lowersHead {r : Term} (hr : r.Regular) (hp : r.isPending = false) {a : Nat}
    (hle : a ≤ d) (hge : d ≤ a + n) : r.LowersHead n P d (r.meaning.rename (Plain.raise n a)) := by
  cases r with
  | var loc k => exact .var hr (Plain.lower_rename_raise hle hge (.var k.toNat))
  | lam loc hint body =>
    rw [Term.meaning, Plain.rename, Plain.liftIndex_raise]
    have hbody : body.Regular := hr
    exact .lam (.settled hbody (by omega) (by omega))
  | app loc fn arg => exact .app (.settled hr.1 hle hge) (.settled hr.2 hle hge)
  | pending loc s body => cases hp
  | unknown loc => exact absurd hr id

/-- A head is brought out, or the lowering fails, and then it fails on the meaning too. -/
def Term.Brings (n : Nat) (P : Int → Prop) (d : Nat) (x : Except Failure Term) (p : Plain) : Prop :=
  (∃ r, x = .ok r ∧ r.LowersHead n P d p) ∨ (FailsLowering n P x ∧ p.lower n d = none)

/-- Forcing a term in which the lowering has been done. -/
theorem Term.Regular.brings {e : Term} (he : e.Regular) {a : Nat} (hle : a ≤ d) (hge : d ≤ a + n) :
    Term.Brings n P d (e.force .identity) (e.meaning.rename (Plain.raise n a)) := by
  obtain ⟨r, hr, hreg, hmean⟩ := Term.force_regular Subst.regular_identity he
  rw [Subst.meaning_identity, Plain.subst_var] at hmean
  rw [← hmean]
  exact .inl ⟨r, hr, hreg.lowersHead (Term.isPending_force hr) hle hge⟩

/-- The identity after a lowering substitution leaves it as it is. -/
theorem Subst.Lowers.compose_identity : (s : Subst) → {σ : Plain.Assignment} →
    s.Lowers n P d σ → Subst.compose .identity s = .ok s
  | .shift amount, _, _ => Subst.identity_compose_shift amount
  | .dot head rest, _, hs => by
    cases hs with
    | dot _ hrest =>
      exact Subst.identity_compose_dot head (Subst.Lowers.compose_identity rest hrest)
  | .unknown, _, hs => by cases hs

/-- What forcing is called on when a lowering is under way: a lowering substitution and a regular
term, or the identity and a replacement with a lowering inside it. -/
def Term.UnderWay (n : Nat) (P : Int → Prop) (d : Nat) (s : Subst) (e : Term) (p : Plain) : Prop :=
  (∃ σ, s.Lowers n P d σ ∧ e.Regular ∧ e.Indices P ∧ p = e.meaning.subst σ) ∨
    (s = .identity ∧ ∃ loc t σ body, e = .pending loc t body ∧ t.Lowers n P d σ ∧ body.Regular ∧
      body.Indices P ∧ p = body.meaning.subst σ)

/-- On a term that is not pending, only the first of the two is possible. -/
theorem Term.UnderWay.of_not_pending {s : Subst} {e : Term} {p : Plain}
    (h : Term.UnderWay n P d s e p) (hp : e.isPending = false) :
    ∃ σ, s.Lowers n P d σ ∧ e.Regular ∧ e.Indices P ∧ p = e.meaning.subst σ := by
  rcases h with h | ⟨-, loc, t, σ, body, rfl, -⟩
  · exact h
  · cases hp

/-- What is found for a variable. -/
theorem Term.UnderWay.lookup {s : Subst} {loc : Option Span} {k : Int} {p : Plain}
    (h : Term.UnderWay n P d s (.var loc k) p) :
    (∃ r, s.lookup loc k k = .ok r ∧ r.Lowers n P d p) ∨
      (FailsLowering n P (s.lookup loc k k) ∧ p.lower n d = none) := by
  obtain ⟨σ, hs, he, hP, rfl⟩ := h.of_not_pending rfl
  have hk : ((k.toNat : Nat) : Int) = k := Int.toNat_of_nonneg he
  have hlook := Subst.Lowers.lookup loc hP s hs k.toNat
  rwa [hk] at hlook

/-- What is merged at a pending node. -/
theorem Term.UnderWay.merge {s t : Subst} {loc : Option Span} {body : Term} {p : Plain}
    (h : Term.UnderWay n P d s (.pending loc t body) p) :
    ∃ merged, s.compose t = .ok merged ∧ Term.UnderWay n P d merged body p := by
  rcases h with ⟨σ, hs, he, hP, rfl⟩ | ⟨rfl, _, _, σ, _, ⟨⟩, ht, hbody, hP, rfl⟩
  · obtain ⟨merged, hm, hlow⟩ := hs.compose t he.1 hP.1
    refine ⟨merged, hm, .inl ⟨_, hlow, he.2, hP.2, ?_⟩⟩
    rw [Term.meaning, Plain.subst_subst]
  · exact ⟨t, ht.compose_identity, .inl ⟨σ, ht, hbody, hP, rfl⟩⟩

/-- Under the identity, a head that is not pending is already brought out. -/
theorem Term.UnderWay.settle {s : Subst} {e : Term} {p : Plain} (h : Term.UnderWay n P d s e p)
    (hp : e.isPending = false) (hid : s.isIdentity = true) : e.LowersHead n P d p := by
  obtain ⟨σ, hs, he, -, rfl⟩ := h.of_not_pending hp
  have hlow := hs.settle hid he
  generalize e.meaning.subst σ = p at hlow
  cases hlow with
  | settled hreg hle hge => exact hreg.lowersHead hp hle hge
  | waiting => cases hp

/-- **Forcing keeps the lowering in step.** -/
theorem Term.UnderWay.force {s : Subst} {e : Term} {p : Plain}
    (h : Term.UnderWay n P d s e p) : Term.Brings n P d (e.force s) p := by
  fun_induction Term.force s e generalizing p with
  | case1 s loc t body x hx =>
    obtain ⟨merged, hm, -⟩ := h.merge
    rw [hm] at hx
    cases hx
  | case2 s loc t body merged hm ih =>
    obtain ⟨merged', hm', hnext⟩ := h.merge
    rw [hm'] at hm
    cases hm
    exact ih hnext
  | case3 s loc k x hx =>
    have hlook := h.lookup
    rw [hx] at hlook
    rcases hlook with ⟨r, hr, -⟩ | hfail
    · cases hr
    · exact .inr hfail
  | case4 s loc k r hl hp ih =>
    have hlook := h.lookup
    rw [hl] at hlook
    rcases hlook with ⟨_, ⟨⟩, hlow⟩ | ⟨⟨_, _, _, ⟨⟩, -⟩, -⟩
    -- the replacement starts a new run under the identity
    cases hlow with
    | settled hreg hle hge => exact hreg.brings hle hge
    | waiting ht hbody hbodyP => exact ih (.inr ⟨rfl, _, _, _, _, rfl, ht, hbody, hbodyP, rfl⟩)
  | case5 s loc k r hl hp =>
    have hlook := h.lookup
    rw [hl] at hlook
    rcases hlook with ⟨_, ⟨⟩, hlow⟩ | ⟨⟨_, _, _, ⟨⟩, -⟩, -⟩
    cases hlow with
    | settled hreg hle hge => exact .inl ⟨r, rfl, hreg.lowersHead (by simpa using hp) hle hge⟩
    | waiting => exact absurd rfl hp
  | case6 s loc hint body hid => exact .inl ⟨_, rfl, h.settle rfl hid⟩
  | case7 s loc hint body hid =>
    obtain ⟨σ, hs, he, hP, rfl⟩ := h.of_not_pending rfl
    obtain ⟨below, hbelow, hbelowlow⟩ := hs.lifted
    obtain ⟨body', hbody, hbodylow⟩ := hbelowlow.defer body he hP
    refine .inl ⟨.lam loc hint body', ?_, .lam hbodylow⟩
    exact Failure.bind_eq_ok.2 ⟨below, hbelow, Failure.bind_eq_ok.2 ⟨body', hbody, rfl⟩⟩
  | case8 s loc fn arg hid => exact .inl ⟨_, rfl, h.settle rfl hid⟩
  | case9 s loc fn arg hid =>
    obtain ⟨σ, hs, he, hP, rfl⟩ := h.of_not_pending rfl
    obtain ⟨fn', hfn, hfnlow⟩ := hs.defer fn he.1 hP.1
    obtain ⟨arg', harg, harglow⟩ := hs.defer arg he.2 hP.2
    refine .inl ⟨.app loc fn' arg', ?_, .app hfnlow harglow⟩
    exact Failure.bind_eq_ok.2 ⟨fn', hfn, Failure.bind_eq_ok.2 ⟨arg', harg, rfl⟩⟩
  | case10 s loc hid =>
    obtain ⟨σ, -, he, -⟩ := h.of_not_pending rfl
    exact absurd he id
  | case11 s loc hid =>
    obtain ⟨σ, -, he, -⟩ := h.of_not_pending rfl
    exact absurd he id

/-- Exposing keeps the lowering in step. -/
theorem Term.Lowers.expose {e : Term} {p : Plain} (h : e.Lowers n P d p) :
    Term.Brings n P d e.expose p := by
  cases h with
  | settled he hle hge =>
    obtain ⟨r, hr, hreg, hmean⟩ := Term.expose_regular he
    rw [← hmean]
    exact .inl ⟨r, hr, hreg.lowersHead (Term.isPending_expose hr) hle hge⟩
  | waiting hs hbody hP => exact Term.UnderWay.force (.inl ⟨_, hs, hbody, hP, rfl⟩)

/-- Everything is carried out and gives a plain term, or the lowering fails. -/
def Term.CarriesOut (n : Nat) (P : Int → Prop) (x : Except Failure Term) : Option Plain → Prop
  | some q => ∃ r, x = .ok r ∧ r.Same q.toTerm
  | none => FailsLowering n P x

/-- **Carrying everything out lowers the meaning**: it fails exactly where lowering the plain term
does, and gives the lowered term otherwise. -/
theorem Term.Lowers.forceAll {e : Term} {p : Plain} (h : e.Lowers n P d p) :
    Term.CarriesOut n P e.forceAll (p.lower n d) := by
  fun_induction Term.forceAll e generalizing d p with
  | case1 e x hx =>
    have hexp := h.expose
    rw [hx] at hexp
    rcases hexp with ⟨r, ⟨⟩, -⟩ | ⟨hfail, hnone⟩
    rw [hnone]
    exact hfail
  | case2 e loc hint body hexp ih =>
    have hbring := h.expose
    rw [hexp] at hbring
    rcases hbring with ⟨_, ⟨⟩, ⟨⟩⟩ | ⟨⟨_, _, _, ⟨⟩, -⟩, -⟩
    rename_i p hbody
    have hcarry := ih hbody
    rw [Plain.lower]
    cases hlower : p.lower n (d + 1) with
    | none =>
      rw [hlower] at hcarry
      exact FailsLowering.bind hcarry _
    | some q =>
      rw [hlower] at hcarry
      obtain ⟨body', hbody', hsame⟩ := hcarry
      refine ⟨.lam loc hint body', Failure.bind_eq_ok.2 ⟨body', hbody', rfl⟩, ?_⟩
      simp only [Term.Same, Term.bare, Plain.toTerm] at hsame ⊢
      rw [hsame]
  | case3 e loc fn arg hexp ihf iha =>
    have hbring := h.expose
    rw [hexp] at hbring
    rcases hbring with ⟨_, ⟨⟩, ⟨⟩⟩ | ⟨⟨_, _, _, ⟨⟩, -⟩, -⟩
    rename_i p q hfn harg
    have hfnCarry := ihf hfn
    have hargCarry := iha harg
    rw [Plain.lower]
    cases hfnLower : p.lower n d with
    | none =>
      rw [hfnLower] at hfnCarry
      exact FailsLowering.bind hfnCarry _
    | some p' =>
      rw [hfnLower] at hfnCarry
      obtain ⟨fn', hfn', hfnSame⟩ := hfnCarry
      rw [hfn']
      cases hargLower : q.lower n d with
      | none =>
        rw [hargLower] at hargCarry
        exact FailsLowering.bind hargCarry _
      | some q' =>
        rw [hargLower] at hargCarry
        obtain ⟨arg', harg', hargSame⟩ := hargCarry
        refine ⟨.app loc fn' arg',
          Failure.bind_eq_ok.2 ⟨fn', rfl, Failure.bind_eq_ok.2 ⟨arg', harg', rfl⟩⟩, ?_⟩
        simp only [Term.Same, Term.bare, Plain.toTerm] at hfnSame hargSame ⊢
        rw [hfnSame, hargSame]
  | case4 e r hlam happ hexp =>
    have hbring := h.expose
    rw [hexp] at hbring
    rcases hbring with ⟨_, ⟨⟩, hhead⟩ | ⟨⟨_, _, _, ⟨⟩, -⟩, -⟩
    cases hhead with
    | @var loc j i hj hlower =>
      have hjnat : ((j.toNat : Nat) : Int) = j := Int.toNat_of_nonneg hj
      rw [hlower]
      refine ⟨.var loc j, rfl, ?_⟩
      simp only [Term.Same, Term.bare, Plain.toTerm, hjnat]
    | lam hbody => exact absurd rfl (hlam _ _ _)
    | app hfn harg => exact absurd rfl (happ _ _ _)

/-! ## Shifting down -/

/-- A term that was shifted down stands for its meaning, with the lowering still to be done. -/
theorem Term.lowers_shift_neg {e : Term} (he : e.Regular) (hP : e.Indices P) :
    ∃ r, e.shift (-n) = .ok r ∧ r.Lowers n P 0 e.meaning := by
  have hs : (Subst.shift (-n)).Lowers n P 0 (Plain.Assignment.shift 0) :=
    .shift (Nat.le_refl 0) (by omega)
  obtain ⟨r, hr, hlow⟩ := hs.defer e he hP
  have hmean : e.meaning.subst (Plain.Assignment.shift 0) = e.meaning := Plain.subst_var _
  rw [hmean] at hlow
  exact ⟨r, hr, hlow⟩

/-- Carrying a shift down out lowers the meaning. -/
theorem Term.carriesOut_shift_neg {e : Term} (he : e.Regular) (hP : e.Indices P) :
    Term.CarriesOut n P (e.shift (-n) >>= Term.forceAll) (e.meaning.lower n 0) := by
  obtain ⟨r, hr, hlow⟩ := Term.lowers_shift_neg (n := n) he hP
  rw [hr]
  exact hlow.forceAll

/-- With short numbers, a lowering that fails is reported as a fault of substitution. -/
theorem FailsLowering.substitution_fault {α : Type} {x : Except Failure α}
    (h : FailsLowering n Decimal.Writable x) (hn : Decimal.Writable n) :
    ∃ cause, x = .error (.fault cause) ∧ cause.kind = .substitution := by
  obtain ⟨index, shifted, loc, rfl, hindex, hge, hlt⟩ := h
  have hshifted : Decimal.Writable shifted := by
    unfold Decimal.Writable at hn ⊢
    omega
  have hwritable : (Fault.negative index shifted loc).writable = true := by
    simp only [Fault.writable, hindex, hshifted, decide_true, Bool.and_self]
  refine ⟨.negative index shifted loc, ?_, rfl⟩
  rw [Failure.raise, if_pos hwritable]

/-- **Shifting down fails exactly at a shallow variable.** Let `e` be regular and all indices in
it, and `n`, short enough to be written. Shifting `e` down by `n` and carrying everything out fails
with a fault of substitution exactly if a free index `k` occurs below `d` binders with `k + d < n`.
Otherwise it succeeds, and takes `n` off every variable that is not bound: one with `k < n` that
only occurs below `n - k` binders or more becomes bound by one of them. -/
theorem Term.forceAll_shift_neg_fails_iff {e : Term} (he : e.Regular)
    (hshort : e.Indices Decimal.Writable) {n : Nat} (hn : Decimal.Writable n) :
    ((∃ cause, (e.shift (-n) >>= Term.forceAll) = .error (.fault cause) ∧
        cause.kind = .substitution) ↔ ∃ k d, k + d < n ∧ e.meaning.HasVar d (k + d)) ∧
    ((∀ k d, e.meaning.HasVar d (k + d) → n ≤ k + d) →
      ∃ q r, e.meaning.lower n 0 = some q ∧ (e.shift (-n) >>= Term.forceAll) = .ok r ∧
        r.Same q.toTerm) := by
  have hcarry := Term.carriesOut_shift_neg (n := n) he hshort
  have hnone := Plain.lower_eq_none_iff n 0 e.meaning
  have hshallow : (∃ d i, e.meaning.HasVar d i ∧ 0 + d ≤ i ∧ i < n) ↔
      ∃ k d, k + d < n ∧ e.meaning.HasVar d (k + d) := by
    constructor
    · rintro ⟨d, i, h, hle, hlt⟩
      have hi : i - d + d = i := by omega
      exact ⟨i - d, d, by rwa [hi], by rwa [hi]⟩
    · rintro ⟨k, d, hlt, h⟩
      exact ⟨d, k + d, h, by omega, hlt⟩
  rw [hshallow] at hnone
  rw [← hnone]
  cases hlower : e.meaning.lower n 0 with
  | none =>
    rw [hlower] at hcarry
    refine ⟨⟨fun _ => rfl, fun _ => FailsLowering.substitution_fault hcarry hn⟩, ?_⟩
    intro hdeep
    obtain ⟨k, d, hlt, hvar⟩ := hnone.1 hlower
    have := hdeep k d hvar
    omega
  | some q =>
    rw [hlower] at hcarry
    obtain ⟨r, hr, hsame⟩ := hcarry
    refine ⟨⟨?_, by rintro ⟨⟩⟩, fun _ => ⟨q, r, rfl, hr, hsame⟩⟩
    rintro ⟨cause, hfail, -⟩
    rw [hr] at hfail
    cases hfail

/-- The variable of `λ x. 1` has free index `0` and is shallow for a shift down by two, so that
shift is refused. -/
theorem Term.forceAll_shift_neg_refused :
    let e := Term.lam none "x" (.var none 1)
    e.Regular ∧ e.Indices Decimal.Writable ∧ Decimal.Writable ((2 : Nat) : Int) ∧
      ∃ cause, (e.shift (-((2 : Nat) : Int)) >>= Term.forceAll) = .error (.fault cause) ∧
        cause.kind = .substitution := by
  intro e
  have he : e.Regular := by decide
  have hshort : e.Indices Decimal.Writable :=
    Decimal.writable_of_natAbs_lt (i := 1) (by decide)
  have hn : Decimal.Writable ((2 : Nat) : Int) := Decimal.writable_of_natAbs_lt (by decide)
  refine ⟨he, hshort, hn, (Term.forceAll_shift_neg_fails_iff he hshort hn).1.2 ?_⟩
  exact ⟨0, 1, by decide, 0, rfl, rfl, rfl⟩

/-- Shifted down by one, the free index `0` of `λ x. 1` is not refused: it becomes bound. -/
theorem Term.forceAll_shift_neg_captures :
    let e := Term.lam none "x" (.var none 1)
    e.Regular ∧ e.occurs 0 = .ok true ∧
      (e.shift (-1) >>= Term.forceAll) = .ok (.lam none "x" (.var none 0)) := by
  intro e
  have hhead : (Term.pending none (.shift (-1)) e).expose = .ok (.lam none "x"
      (.pending none (.dot (.var none 0) (.shift 0)) (.var none 1))) := by cbv
  have hvar : (Term.pending none (.dot (.var none 0) (.shift 0)) (.var none 1)).expose =
      .ok (.var none 0) := by cbv
  have hbody : (Term.pending none (.dot (.var none 0) (.shift 0)) (.var none 1)).forceAll =
      .ok (.var none 0) := by
    rw [Term.forceAll_eq, hvar]
    rfl
  refine ⟨by decide, by cbv, ?_⟩
  change (Term.pending none (.shift (-1)) e).forceAll = _
  rw [Term.forceAll_eq, hhead]
  exact Failure.bind_eq_ok.2 ⟨_, rfl, Failure.bind_eq_ok.2 ⟨_, hbody, rfl⟩⟩

end Nameless
