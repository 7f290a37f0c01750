import Nameless.Proofs.Occurrence

/-!
# Free variables

An index is free in a term if some variable refers to it, with everything carried out. Whether that
is so is found by a search that carries out no more than it has to look at. This module ties the
answer of the search to the variables that are there in the end, and says what a substitution makes
of them.

* **The variables of a term** (`Term.leaves`) are listed with the binders above them. Where nothing
  is pending (`Term.IsPlain`) the list is complete, and it decides which indices are free
  (`Term.free_iff_leaves`).
* **The search is exact** (`Term.occurs_iff_leaf`): it ends without a fault, and it finds an index
  exactly if the term with everything carried out has a variable that refers to it.
* **Substitution loses no variable and invents none** (`Plain.free_subst`, `Term.occurs_defer_iff`):
  an index is free below a substitution exactly if it is free in what replaces some free index.
-/

namespace Nameless

/-- A variable in a term: the number of abstractions above it, its index, and its span. -/
structure Leaf where
  depth : Nat
  index : Int
  span : Option Span
deriving DecidableEq

namespace Term

/-- The variables of a term that stands below `depth` abstractions, from left to right. What is
pending is passed by. -/
def leaves (depth : Nat) : Term → List Leaf
  | var loc index => [⟨depth, index, loc⟩]
  | lam _ _ body => body.leaves (depth + 1)
  | app _ fn arg => fn.leaves depth ++ arg.leaves depth
  | pending _ _ _ => []
  | unknown _ => []

/-- Nothing is pending in the term: it is made of abstractions, applications, and variables whose
indices are at least zero. -/
def IsPlain : Term → Prop
  | var _ index => 0 ≤ index
  | lam _ _ body => body.IsPlain
  | app _ fn arg => fn.IsPlain ∧ arg.IsPlain
  | pending _ _ _ => False
  | unknown _ => False

/-- Whether something is pending can be tested. -/
def decIsPlain : (e : Term) → Decidable e.IsPlain
  | var _ index => inferInstanceAs (Decidable (0 ≤ index))
  | lam _ _ body => body.decIsPlain
  | app _ fn arg => @instDecidableAnd _ _ fn.decIsPlain arg.decIsPlain
  | pending _ _ _ => .isFalse id
  | unknown _ => .isFalse id

instance (e : Term) : Decidable e.IsPlain := e.decIsPlain

/-- In a plain term nothing waits to be carried out. -/
theorem IsPlain.not_pending {e : Term} (he : e.IsPlain) : e.isPending = false := by
  cases e with
  | pending => exact absurd he id
  | _ => rfl

/-- What comes to a plain term has nothing pending. -/
theorem Same.isPlain {f : Term} {q : Plain} (h : f.Same q.toTerm) : f.IsPlain := by
  induction q generalizing f with
  | var j =>
    cases f with
    | var loc index =>
      obtain rfl : index = j := (Term.var.inj h).2
      exact Int.natCast_nonneg j
    | _ => cases h
  | lam hint body ih =>
    cases f with
    | lam loc hint' body' =>
      have hbody : body'.Same body.toTerm := (Term.lam.inj h).2.2
      show body'.IsPlain
      exact ih hbody
    | _ => cases h
  | app fn arg ihf iha =>
    cases f with
    | app loc fn' arg' => exact ⟨ihf (Term.app.inj h).2.1, iha (Term.app.inj h).2.2⟩
    | _ => cases h

/-- **An index is free in a plain term exactly if a variable refers to it.** -/
theorem free_iff_leaves {f : Term} {q : Plain} (h : f.Same q.toTerm) (k depth : Nat) :
    q.free (k + depth) = true ↔ ∃ v ∈ f.leaves depth, v.index = k + v.depth := by
  induction q generalizing f depth with
  | var j =>
    cases f with
    | var loc index =>
      obtain rfl : index = j := (Term.var.inj h).2
      simp only [leaves, Plain.free, List.mem_singleton, exists_eq_left, beq_iff_eq]
      omega
    | _ => cases h
  | lam hint body ih =>
    cases f with
    | lam loc hint' body' => exact ih (Term.lam.inj h).2.2 (depth + 1)
    | _ => cases h
  | app fn arg ihf iha =>
    cases f with
    | app loc fn' arg' =>
      rw [Plain.free, Bool.or_eq_true, ihf (Term.app.inj h).2.1, iha (Term.app.inj h).2.2]
      simp only [leaves, List.mem_append, or_and_right, exists_or]
    | _ => cases h

/-- **The search for a free index is exact.** In a regular term, with whatever is pending in it, it
ends without a fault for every index `k`. The term with everything carried out has nothing pending,
and the search finds `k` exactly if that term has a variable of index `k + d` below `d`
abstractions. -/
theorem occurs_iff_leaf {e : Term} (he : e.Regular) {k : Int} (hk : 0 ≤ k) :
    ∃ found f, e.occurs k = .ok found ∧ e.forceAll = .ok f ∧ f.IsPlain ∧
      (found = true ↔ ∃ v ∈ f.leaves 0, v.index = k + v.depth) := by
  obtain ⟨n, rfl⟩ := Int.eq_ofNat_of_zero_le hk
  obtain ⟨f, hf, hsame⟩ := forceAll_regular he
  exact ⟨e.meaning.free n, f, occurs_regular he n, hf, hsame.isPlain, free_iff_leaves hsame n 0⟩

/-- The variable of a pending entry that goes below two binders: `(λ y. 1 2)`, shifted by one,
stands for index `0` in `λ x. λ z. 2`. Its index `2` is raised to `5`, below three binders. -/
theorem occurs_iff_leaf_pending_entry :
    let entry := pending none (.shift 1) (lam none "y" (app none (var none 1) (var none 2)))
    let e := pending none (.dot entry (.shift 5)) (lam none "x" (lam none "z" (var none 2)))
    e.Regular ∧ (0 : Int) ≤ 2 ∧ e.occurs 2 = .ok true ∧
      ∃ f, e.forceAll = .ok f ∧ f.IsPlain ∧ ∃ v ∈ f.leaves 0, v.index = 2 + v.depth := by
  intro entry e
  have he : e.Regular := by decide
  have hk : (0 : Int) ≤ 2 := by decide
  have hocc : e.occurs 2 = .ok true := occurs_regular he 2
  obtain ⟨found, f, hfound, hf, hplain, hiff⟩ := occurs_iff_leaf he hk
  rw [hocc] at hfound
  cases hfound
  exact ⟨he, hk, hocc, f, hf, hplain, hiff.1 rfl⟩

end Term

/-! ## Free variables below a substitution -/

namespace Plain

/-- The free variables of a renamed term are those of the term, renamed. -/
theorem free_rename (e : Plain) (ρ : Nat → Nat) (k : Nat) :
    (e.rename ρ).free k = true ↔ ∃ j, e.free j = true ∧ ρ j = k := by
  induction e generalizing ρ k with
  | var i => simp [rename, free]
  | lam hint body ih =>
    simp only [rename, free, ih]
    constructor
    · rintro ⟨j, hj, hρ⟩
      -- the bound variable is renamed to itself, so `j` is a free one
      cases j with
      | zero => cases hρ
      | succ j => exact ⟨j, hj, Nat.succ.inj hρ⟩
    · rintro ⟨j, hj, hρ⟩
      exact ⟨j + 1, hj, congrArg Nat.succ hρ⟩
  | app fn arg ihf iha =>
    simp only [rename, free, Bool.or_eq_true, ihf, iha, or_and_right, exists_or]

/-- Renaming past a binder shifts the free variables by one. -/
theorem free_rename_succ (e : Plain) (k : Nat) :
    (e.rename (· + 1)).free (k + 1) = true ↔ e.free k = true := by
  rw [free_rename]
  constructor
  · rintro ⟨j, hj, hjk⟩
    rwa [← Nat.succ.inj hjk]
  · intro hk
    exact ⟨k, hk, rfl⟩

/-- **Substitution loses no variable and invents none.** An index is free in a term with an
assignment carried out exactly if it is free in what is assigned to a free index of the term. -/
theorem free_subst (e : Plain) (σ : Assignment) (k : Nat) :
    (e.subst σ).free k = true ↔ ∃ j, e.free j = true ∧ (σ j).free k = true := by
  induction e generalizing σ k with
  | var i => simp [subst, free]
  | lam hint body ih =>
    simp only [subst, free, ih]
    constructor
    · rintro ⟨j, hj, hσ⟩
      cases j with
      | zero => cases hσ
      | succ j => exact ⟨j, hj, (free_rename_succ (σ j) k).1 hσ⟩
    · rintro ⟨j, hj, hσ⟩
      exact ⟨j + 1, hj, (free_rename_succ (σ j) k).2 hσ⟩
  | app fn arg ihf iha =>
    simp only [subst, free, Bool.or_eq_true, ihf, iha, or_and_right, exists_or]

/-- The free variables of a beta step: those of the body behind the bound one, and those of the
argument if the bound variable is used. -/
theorem free_instantiate (body arg : Plain) (k : Nat) :
    (body.instantiate arg).free k = (body.free (k + 1) || body.free 0 && arg.free k) := by
  rw [Bool.eq_iff_iff, instantiate, free_subst, Bool.or_eq_true, Bool.and_eq_true]
  constructor
  · rintro ⟨j, hj, hσ⟩
    cases j with
    | zero => exact .inr ⟨hj, hσ⟩
    | succ j =>
      obtain rfl : j = k := beq_iff_eq.1 hσ
      exact .inl hj
  · rintro (hk | ⟨hzero, harg⟩)
    · exact ⟨k + 1, hk, beq_self_eq_true k⟩
    · exact ⟨0, hzero, harg⟩

end Plain

namespace Term

/-- An index that a variable is replaced by: forcing the variable brings it out. -/
theorem occurs_force_var {s : Subst} (hs : s.Regular) (loc : Option Span) (j k : Nat) :
    ∃ r, (var loc j).force s = .ok r ∧ r.occurs k = .ok ((s.meaning j).free k) := by
  obtain ⟨r, hr, hreg, hmean⟩ := force_regular hs (e := var loc j) (Int.natCast_nonneg j)
  refine ⟨r, hr, ?_⟩
  rw [occurs_regular hreg, hmean]
  rfl

/-- **The free variables of a deferred substitution.** Let the substitution `s` and the term `e` be
regular. Deferring `s` over `e` succeeds, the search for an index `k` in it ends without a fault,
and it finds `k` exactly if some index `j` is free in `e`, and `k` is free in what the variable `j`
is forced to under `s`. So `k` is free after a beta step exactly if `k + 1` is free in the body, or
the bound variable is free in the body and `k` is free in the argument. -/
theorem occurs_defer_iff {s : Subst} {e : Term} (hs : s.Regular) (he : e.Regular) {k : Int}
    (hk : 0 ≤ k) (loc : Option Span) :
    (∃ d found, e.defer s = .ok d ∧ d.occurs k = .ok found ∧
      (found = true ↔ ∃ j : Int, 0 ≤ j ∧ e.occurs j = .ok true ∧
        ∃ r, (var loc j).force s = .ok r ∧ r.occurs k = .ok true)) ∧
    ∀ arg : Term, arg.Regular → ∃ d found behind bound inArg, e.instantiate arg = .ok d ∧
      d.occurs k = .ok found ∧ e.occurs (k + 1) = .ok behind ∧ e.occurs 0 = .ok bound ∧
      arg.occurs k = .ok inArg ∧
      (found = true ↔ behind = true ∨ bound = true ∧ inArg = true) := by
  obtain ⟨n, rfl⟩ := Int.eq_ofNat_of_zero_le hk
  constructor
  · obtain ⟨d, hd, hreg, hmean⟩ := defer_regular hs e he
    refine ⟨d, d.meaning.free n, hd, occurs_regular hreg n, ?_⟩
    rw [hmean, Plain.free_subst]
    constructor
    · rintro ⟨j, hj, hfree⟩
      obtain ⟨r, hr, hocc⟩ := occurs_force_var hs loc j n
      refine ⟨j, Int.natCast_nonneg j, ?_, r, hr, ?_⟩
      · rw [occurs_regular he, hj]
      · rw [hocc, hfree]
    · rintro ⟨i, hi, hj, r', hr', hfree⟩
      obtain ⟨j, rfl⟩ := Int.eq_ofNat_of_zero_le hi
      obtain ⟨r, hr, hocc⟩ := occurs_force_var hs loc j n
      rw [hr] at hr'
      cases hr'
      rw [occurs_regular he] at hj
      rw [hocc] at hfree
      exact ⟨j, Except.ok.inj hj, Except.ok.inj hfree⟩
  · intro arg harg
    obtain ⟨d, hd, hreg, hmean⟩ := instantiate_regular he harg
    refine ⟨d, d.meaning.free n, e.meaning.free (n + 1), e.meaning.free 0, arg.meaning.free n, hd,
      occurs_regular hreg n, occurs_regular he (n + 1), occurs_regular he 0,
      occurs_regular harg n, ?_⟩
    rw [hmean, Plain.free_instantiate, Bool.or_eq_true, Bool.and_eq_true]

/-- Below a binder, `λ x. 1 2` has the free indices `0` and `1`. A pending entry replaces the first
of them by `3`, shifted to `4`, and the second is shifted from `0` to `7`. -/
theorem occurs_defer_iff_pending_entry :
    let s := Subst.dot (pending none (.shift 1) (var none 3)) (.shift 7)
    let e := lam none "x" (app none (var none 1) (var none 2))
    s.Regular ∧ e.Regular ∧ (0 : Int) ≤ 4 ∧ ∃ d, e.defer s = .ok d ∧ d.occurs 4 = .ok true := by
  intro s e
  have hs : s.Regular := by decide
  have he : e.Regular := by decide
  have hk : (0 : Int) ≤ 4 := by decide
  obtain ⟨d, found, hd, hfound, hiff⟩ := (occurs_defer_iff hs he hk none).1
  have hzero : e.occurs 0 = .ok true := occurs_regular he 0
  have hforced : (var none 0).force s = .ok (var none 4) := by
    simp only [s]
    cbv
  have hin : (var none 4).occurs 4 = .ok true := by cbv
  rw [hiff.2 ⟨0, Int.le_refl 0, hzero, var none 4, hforced, hin⟩] at hfound
  exact ⟨hs, he, hk, d, hd, hfound⟩

end Term

end Nameless
