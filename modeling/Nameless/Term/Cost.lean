import Nameless.Term.Compose

/-!
# A measure that forcing decreases

Forcing a pending substitution merges substitutions, swaps in replacements of unrelated size, and
leaves new pending nodes behind that can be larger than what they came from. So no size of the data
bounds it. What does is the work that a term can still cause, where every variable is charged with
the work that hides behind it.

`e.cost ρ` is that work, with `ρ` the charge of each free index, and `s.charge ρ` is the charge
that the substitution `s` hands to the body below it.

* **Composition does not raise charges** (`Subst.charge_compose_le`): what `s` and `t` hand down
  one after the other bounds what their composition hands down.
* **Nor does deferring** (`Term.entry_defer_le`): as an entry of a substitution, a deferred term is
  charged no more than the term below it.
-/

namespace Nameless

/-- A charge for every index. -/
abbrev Charge := Int → Nat

/-- Nothing hides behind any variable. -/
def Charge.zero : Charge := fun _ => 0

/-- Charges below a binder: the bound variable is charged with what a lifted substitution puts in
its place, the others with what they had. -/
def Charge.lift (ρ : Charge) : Charge := fun k => if k = 0 then 2 else ρ (k - 1)

/-- What a substitution's entry of a given cost is charged. A pending entry has to be forced again,
which its cost accounts for; any other entry is one step. -/
def Term.entry (e : Term) (cost : Nat) : Nat := if e.isPending then cost else cost + 1

mutual

/-- The work that a term can cause, its variables being charged by `ρ`. -/
def Term.cost : Term → Charge → Nat
  | .var _ k, ρ => ρ k + 1
  | .lam _ _ body, ρ => body.cost ρ.lift + 2
  | .app _ fn arg, ρ => fn.cost ρ + arg.cost ρ + 3
  | .pending _ s body, ρ => body.cost (s.charge ρ) + 1
  | .unknown _, _ => 1
termination_by structural e => e

/-- The charges that a substitution hands to its body. Index `0` of a dot also covers the indices
below zero of the rest, so that dropping the head of a dot raises no charge. -/
def Subst.charge : Subst → Charge → Charge
  | .shift n, ρ => fun k => ρ (k + n)
  | .dot head rest, ρ => fun k =>
    if k = 0 then max (head.entry (head.cost ρ)) (rest.charge ρ (-1)) else rest.charge ρ (k - 1)
  | .unknown, _ => Charge.zero
termination_by structural s => s

end

/-- Higher charges are no lower below a binder. -/
theorem Charge.lift_mono {ρ σ : Charge} (h : ∀ k, ρ k ≤ σ k) (k : Int) : ρ.lift k ≤ σ.lift k := by
  unfold Charge.lift
  split
  · exact Nat.le_refl 2
  · exact h _

/-- An entry that costs more is charged no less. -/
theorem Term.entry_mono (e : Term) {m n : Nat} (h : m ≤ n) : e.entry m ≤ e.entry n := by
  unfold Term.entry
  split <;> omega

/-- An entry is charged no less than its cost. -/
theorem Term.le_entry (e : Term) (n : Nat) : n ≤ e.entry n := by
  unfold Term.entry
  split <;> omega

/-- An entry is charged at most one more than its cost. -/
theorem Term.entry_le (e : Term) (n : Nat) : e.entry n ≤ n + 1 := by
  unfold Term.entry
  split <;> omega

mutual

/-- Higher charges make no term cheaper. -/
theorem Term.cost_mono : (e : Term) → {ρ σ : Charge} → (∀ k, ρ k ≤ σ k) → e.cost ρ ≤ e.cost σ
  | .var _ k, _, _, h => by
    have := h k
    simp only [Term.cost]
    omega
  | .lam _ _ body, _, _, h => by
    have := body.cost_mono (Charge.lift_mono h)
    simp only [Term.cost]
    omega
  | .app _ fn arg, _, _, h => by
    have := fn.cost_mono h
    have := arg.cost_mono h
    simp only [Term.cost]
    omega
  | .pending _ s body, _, _, h => by
    have := body.cost_mono (s.charge_mono h)
    simp only [Term.cost]
    omega
  | .unknown _, _, _, _ => by simp [Term.cost]

/-- Higher charges are handed down as higher charges. -/
theorem Subst.charge_mono : (s : Subst) → {ρ σ : Charge} → (∀ k, ρ k ≤ σ k) →
    ∀ k, s.charge ρ k ≤ s.charge σ k
  | .shift n, _, _, h, k => by simpa only [Subst.charge] using h (k + n)
  | .dot head rest, _, _, h, k => by
    have hh := head.entry_mono (head.cost_mono h)
    have hr := rest.charge_mono h
    simp only [Subst.charge]
    split
    · have := hr (-1)
      omega
    · exact hr _
  | .unknown, _, _, _, _ => by simp [Subst.charge]

end

/-- The identity hands charges down unchanged. -/
theorem Subst.charge_of_isIdentity {s : Subst} (h : s.isIdentity = true) (ρ : Charge) :
    s.charge ρ = ρ := by
  rw [Subst.isIdentity_iff.1 h]
  funext k
  simp [Subst.identity, Subst.charge]

/-- Shifting first hands down no more than the charge at the shifted index. -/
theorem Subst.charge_afterShift_le {s t : Subst} {n : Int} (h : s.afterShift n = .ok t)
    (ρ : Charge) (k : Int) : t.charge ρ k ≤ s.charge ρ (k + n) := by
  fun_induction Subst.afterShift s n generalizing k with
  | case1 m n =>
    cases h
    simp only [Subst.charge]
    exact Nat.le_of_eq (congrArg ρ (by omega))
  | case2 head rest =>
    cases h
    simp
  | case3 => cases h
  | case4 head rest n h0 hneg ih =>
    have step := ih h k
    simp only [Subst.charge]
    have hk : k + n - 1 = k + (n - 1) := by omega
    split
    · rename_i hzero
      have : k + (n - 1) = -1 := by omega
      rw [this] at step
      omega
    · rw [hk]
      exact step
  | case5 => cases h; simp
  | case6 => cases h

/-- A term that is not pending is wrapped, unless the substitution is the identity. -/
theorem Term.defer_of_not_pending {e : Term} (he : e.isPending = false) (s : Subst) :
    e.defer s = .ok (if s.isIdentity then e else .pending e.span s e) := by
  cases e with
  | pending => cases he
  | _ => simp only [Term.defer]

/-- Wrapping a term that is not pending raises no charge. -/
theorem Term.entry_defer_le_of_not_pending {e e' : Term} {s : Subst} (he : e.isPending = false)
    (h : e.defer s = .ok e') (ρ : Charge) :
    e'.entry (e'.cost ρ) ≤ e.entry (e.cost (s.charge ρ)) := by
  rw [Term.defer_of_not_pending he] at h
  cases h
  split
  · rename_i hid
    exact Nat.le_of_eq (by rw [Subst.charge_of_isIdentity hid])
  · have hwrapped : (Term.pending e.span s e).isPending = true := rfl
    simp only [Term.entry, hwrapped, he, Term.cost, if_true]
    exact Nat.le_refl _

mutual

/-- What two substitutions hand down one after the other bounds what their composition hands
down. -/
theorem Subst.charge_compose_le : (t : Subst) → {s r : Subst} → s.compose t = .ok r →
    ∀ (ρ : Charge) (k : Int), r.charge ρ k ≤ t.charge (s.charge ρ) k
  | .shift n, s, r, h, ρ, k => by
    simp only [Subst.compose] at h
    simpa only [Subst.charge] using Subst.charge_afterShift_le h ρ k
  | .dot head rest, s, r, h, ρ, k => by
    obtain ⟨head', hhead, h⟩ := Failure.bind_eq_ok.1 h
    obtain ⟨rest', hrest, h⟩ := Failure.bind_eq_ok.1 h
    cases h
    have h₁ := head.entry_defer_le hhead ρ
    have h₂ := rest.charge_compose_le hrest ρ
    simp only [Subst.charge]
    split
    · have := h₂ (-1)
      omega
    · exact h₂ _
  | .unknown, _, _, h, _, _ => by simp [Subst.compose] at h

/-- As an entry of a substitution, a deferred term is charged no more than the term itself under
the charges that the deferred substitution hands down. -/
theorem Term.entry_defer_le : (e : Term) → {s : Subst} → {e' : Term} → e.defer s = .ok e' →
    ∀ ρ : Charge, e'.entry (e'.cost ρ) ≤ e.entry (e.cost (s.charge ρ))
  | .pending loc t body, s, e', h, ρ => by
    simp only [Term.defer] at h
    split at h
    · rename_i hid
      cases h
      exact Nat.le_of_eq (by rw [Subst.charge_of_isIdentity hid])
    · obtain ⟨merged, hm, h⟩ := Failure.bind_eq_ok.1 h
      cases h
      have := body.cost_mono (t.charge_compose_le hm ρ)
      simp only [Term.entry, Term.isPending, Term.cost, if_true]
      omega
  | .var _ _, _, _, h, ρ => Term.entry_defer_le_of_not_pending rfl h ρ
  | .lam _ _ _, _, _, h, ρ => Term.entry_defer_le_of_not_pending rfl h ρ
  | .app _ _ _, _, _, h, ρ => Term.entry_defer_le_of_not_pending rfl h ρ
  | .unknown _, _, _, h, ρ => Term.entry_defer_le_of_not_pending rfl h ρ

end

end Nameless
