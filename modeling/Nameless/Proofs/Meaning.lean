import Nameless.Proofs.Plain
import Nameless.Term.Force

/-!
# What terms mean

A term is **regular** if every index and every shift amount in it is at least zero, at any depth
and also inside substitutions, and if every node in it is of a known shape. Regular terms mean
plain terms, and regular substitutions mean assignments: a pending node means its body with the
assignment carried out.

This module says what the operations below forcing make of meanings. Each of them succeeds on
regular arguments, gives something regular, and:

* **composition is one assignment after the other** (`Subst.compose_regular`);
* **deferring carries the assignment out** (`Term.defer_regular`);
* **lifting lifts** (`Subst.lifted_regular`), and **looking up reads the assignment off**
  (`Subst.lookup_regular`).
-/

namespace Nameless

mutual

/-- All indices and shift amounts of a term are at least zero, and no node is of unknown shape. -/
def Term.Regular : Term → Prop
  | .var _ index => 0 ≤ index
  | .lam _ _ body => body.Regular
  | .app _ fn arg => fn.Regular ∧ arg.Regular
  | .pending _ s body => s.Regular ∧ body.Regular
  | .unknown _ => False

/-- All indices and shift amounts of a substitution are at least zero, and nothing in it is of
unknown shape. -/
def Subst.Regular : Subst → Prop
  | .shift amount => 0 ≤ amount
  | .dot head rest => head.Regular ∧ rest.Regular
  | .unknown => False

end

mutual

/-- The plain term that a regular term stands for. On other terms it is of no interest. -/
def Term.meaning : Term → Plain
  | .var _ index => .var index.toNat
  | .lam _ hint body => .lam hint body.meaning
  | .app _ fn arg => .app fn.meaning arg.meaning
  | .pending _ s body => body.meaning.subst s.meaning
  | .unknown _ => .var 0

/-- The assignment that a regular substitution stands for. -/
def Subst.meaning : Subst → Plain.Assignment
  | .shift amount => Plain.Assignment.shift amount.toNat
  | .dot head rest => Plain.Assignment.cons head.meaning rest.meaning
  | .unknown => Plain.var

end

mutual

/-- Regularity can be tested. -/
def Term.decRegular : (e : Term) → Decidable e.Regular
  | .var _ index => inferInstanceAs (Decidable (0 ≤ index))
  | .lam _ _ body => body.decRegular
  | .app _ fn arg => @instDecidableAnd _ _ fn.decRegular arg.decRegular
  | .pending _ s body => @instDecidableAnd _ _ s.decRegular body.decRegular
  | .unknown _ => .isFalse id

@[inherit_doc Term.decRegular]
def Subst.decRegular : (s : Subst) → Decidable s.Regular
  | .shift amount => inferInstanceAs (Decidable (0 ≤ amount))
  | .dot head rest => @instDecidableAnd _ _ head.decRegular rest.decRegular
  | .unknown => .isFalse id

end

instance (e : Term) : Decidable e.Regular := e.decRegular

instance (s : Subst) : Decidable s.Regular := s.decRegular

/-- The identity is regular. -/
@[simp] theorem Subst.regular_identity : Subst.identity.Regular := by
  simp [Subst.identity, Subst.Regular]

/-- The identity puts every variable in its own place. -/
@[simp] theorem Subst.meaning_identity : Subst.identity.meaning = Plain.var := rfl

/-- A substitution that is taken for the identity means the identity. -/
theorem Subst.meaning_of_isIdentity {s : Subst} (h : s.isIdentity = true) :
    s.meaning = Plain.var := by
  rw [Subst.isIdentity_iff.1 h, Subst.meaning_identity]

/-! ## Composition -/

/-- Shifting first moves every index on. -/
theorem Subst.afterShift_regular {s : Subst} (hs : s.Regular) {n : Int} (hn : 0 ≤ n) :
    ∃ r, s.afterShift n = .ok r ∧ r.Regular ∧ ∀ k, r.meaning k = s.meaning (k + n.toNat) := by
  fun_induction Subst.afterShift s n with
  | case1 m n =>
    have hm : 0 ≤ m := hs
    refine ⟨_, rfl, Int.add_nonneg hm hn, ?_⟩
    intro k
    simp only [Subst.meaning, Plain.Assignment.shift_apply, Plain.var.injEq]
    omega
  | case2 head rest => exact ⟨_, rfl, hs, fun k => rfl⟩
  | case3 head rest n h0 hneg => omega
  | case4 head rest n h0 hneg ih =>
    obtain ⟨r, hr, hreg, hmean⟩ := ih hs.2 (by omega)
    refine ⟨r, hr, hreg, ?_⟩
    intro k
    have hk : k + n.toNat = k + (n - 1).toNat + 1 := by omega
    rw [hmean, hk]
    rfl
  | case5 => exact absurd hs id
  | case6 => exact absurd hs id

/-- A term that is not pending, with a substitution put over it. -/
theorem Term.defer_regular_of_not_pending {s : Subst} (hs : s.Regular) {e : Term}
    (he : e.Regular) (hp : e.isPending = false) :
    ∃ r, e.defer s = .ok r ∧ r.Regular ∧ r.meaning = e.meaning.subst s.meaning := by
  refine ⟨_, Term.defer_of_not_pending hp s, ?_⟩
  split
  · rename_i hid
    rw [Subst.meaning_of_isIdentity hid, Plain.subst_var]
    exact ⟨he, rfl⟩
  · exact ⟨⟨hs, he⟩, rfl⟩

mutual

/-- **Composition is one assignment after the other.** -/
theorem Subst.compose_regular {s : Subst} (hs : s.Regular) : (t : Subst) → t.Regular →
    ∃ r, s.compose t = .ok r ∧ r.Regular ∧ r.meaning = fun k => (t.meaning k).subst s.meaning
  | .shift n, ht => by
    obtain ⟨r, hr, hreg, hmean⟩ := Subst.afterShift_regular hs (n := n) ht
    refine ⟨r, by rw [Subst.compose, hr], hreg, ?_⟩
    funext k
    exact hmean k
  | .dot head rest, ht => by
    obtain ⟨head', hhead, hheadreg, hheadmean⟩ := head.defer_regular hs ht.1
    obtain ⟨rest', hrest, hrestreg, hrestmean⟩ := Subst.compose_regular hs rest ht.2
    refine ⟨.dot head' rest', ?_, ⟨hheadreg, hrestreg⟩, ?_⟩
    · rw [Subst.compose, hhead, hrest]
      rfl
    · funext k
      cases k with
      | zero => exact hheadmean
      | succ k => exact congrFun hrestmean k
  | .unknown, ht => absurd ht id

/-- **Deferring carries the assignment out.** -/
theorem Term.defer_regular {s : Subst} (hs : s.Regular) : (e : Term) → e.Regular →
    ∃ r, e.defer s = .ok r ∧ r.Regular ∧ r.meaning = e.meaning.subst s.meaning
  | .pending loc t body, he => by
    obtain ⟨merged, hm, hmreg, hmmean⟩ := Subst.compose_regular hs t he.1
    rw [Term.defer]
    split
    · rename_i hid
      refine ⟨_, rfl, he, ?_⟩
      rw [Subst.meaning_of_isIdentity hid, Plain.subst_var]
    · refine ⟨.pending loc merged body, by rw [hm]; rfl, ⟨hmreg, he.2⟩, ?_⟩
      rw [Term.meaning, Term.meaning, Plain.subst_subst, hmmean]
  | .var _ _, he => Term.defer_regular_of_not_pending hs he rfl
  | .lam _ _ _, he => Term.defer_regular_of_not_pending hs he rfl
  | .app _ _ _, he => Term.defer_regular_of_not_pending hs he rfl
  | .unknown _, he => absurd he id

end

/-! ## Lifting and looking up -/

/-- **A lifted substitution means the lifted assignment.** -/
theorem Subst.lifted_regular {s : Subst} (hs : s.Regular) :
    ∃ r, s.lifted = .ok r ∧ r.Regular ∧ r.meaning = s.meaning.lift := by
  have hone : (Subst.shift 1).Regular := by simp [Subst.Regular]
  obtain ⟨rest, hrest, hreg, hmean⟩ := Subst.compose_regular hone s hs
  refine ⟨.dot (.var none 0) rest, by rw [Subst.lifted, hrest]; rfl, ⟨Int.le_refl 0, hreg⟩, ?_⟩
  funext k
  cases k with
  | zero => rfl
  | succ k =>
    rw [Subst.meaning, hmean, Plain.Assignment.cons_succ, Plain.Assignment.lift_succ,
      Plain.rename_eq_subst]
    rfl

/-- **Looking an index up reads the assignment off.** -/
theorem Subst.lookup_regular {s : Subst} (hs : s.Regular) (loc : Option Span) (i : Int) {k : Int}
    (hk : 0 ≤ k) :
    ∃ r, s.lookup loc i k = .ok r ∧ r.Regular ∧ r.meaning = s.meaning k.toNat := by
  fun_induction Subst.lookup loc i s k with
  | case1 n k hneg =>
    have hn : 0 ≤ n := hs
    omega
  | case2 n k hpos =>
    have hn : 0 ≤ n := hs
    refine ⟨_, rfl, by simpa [Term.Regular] using hpos, ?_⟩
    simp only [Term.meaning, Subst.meaning, Plain.Assignment.shift_apply, Plain.var.injEq]
    omega
  | case3 head rest => exact ⟨_, rfl, hs.1, rfl⟩
  | case4 head rest k h0 ih =>
    obtain ⟨r, hr, hreg, hmean⟩ := ih hs.2 (by omega)
    have hstep : k.toNat = (k - 1).toNat + 1 := by omega
    refine ⟨r, hr, hreg, ?_⟩
    rw [hmean, hstep, Subst.meaning, Plain.Assignment.cons_succ]
  | case5 => exact absurd hs id

end Nameless
