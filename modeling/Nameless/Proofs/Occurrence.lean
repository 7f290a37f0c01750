import Nameless.Proofs.Forcing
import Nameless.Term.Occurs

/-!
# Free occurrences, with nothing carried out

The search for a free index works through a list of nodes, exposes each of them, and looks for
another index at each depth. On regular terms it finds what there is to be found in the meaning.

* **An index is free in a plain term** (`Plain.free`) if a variable holds it, raised by the number
  of binders that are crossed on the way to that variable.
* **The search decides free occurrence in the meaning** (`Term.search_regular`,
  `Term.occurs_regular`); the invariant is that all entries of the agenda are regular and their
  targets at least zero.
-/

namespace Nameless

namespace Plain

/-- Whether an index is free in a term. -/
def free : Nat → Plain → Bool
  | k, var j => j == k
  | k, lam _ body => body.free (k + 1)
  | k, app fn arg => fn.free k || arg.free k

end Plain

namespace Term

/-- **The search decides free occurrence in the meaning** of the entries of its agenda. -/
theorem search_regular {agenda : Agenda} (h : ∀ entry ∈ agenda, 0 ≤ entry.1 ∧ entry.2.Regular) :
    search agenda = .ok (agenda.any fun entry => entry.2.meaning.free entry.1.toNat) := by
  fun_induction search agenda with
  | case1 => rfl
  | case2 target node rest x hx =>
    obtain ⟨r, hr, -⟩ := expose_regular (h _ List.mem_cons_self).2
    rw [hr] at hx
    cases hx
  | case3 target node rest loc hexp =>
    obtain ⟨-, hmean⟩ := regular_of_expose (h _ List.mem_cons_self).2 hexp
    rw [List.any_cons, ← hmean]
    simp [meaning, Plain.free]
  | case4 target node rest loc index hexp hne ih =>
    obtain ⟨htarget, hnode⟩ := h _ List.mem_cons_self
    obtain ⟨hindex, hmean⟩ := regular_of_expose hnode hexp
    have hfar : (index.toNat == target.toNat) = false := by
      have : 0 ≤ index := hindex
      have : 0 ≤ target := htarget
      rw [beq_eq_false_iff_ne]
      omega
    rw [ih fun entry hentry => h entry (List.mem_cons_of_mem _ hentry), List.any_cons, ← hmean]
    simp only [meaning, Plain.free, hfar, Bool.false_or]
  | case5 target node rest loc hint body hexp ih =>
    obtain ⟨htarget, hnode⟩ := h _ List.mem_cons_self
    obtain ⟨hbody, hmean⟩ := regular_of_expose hnode hexp
    have hstep : (target + 1).toNat = target.toNat + 1 := Int.toNat_add htarget (by decide)
    rw [ih, List.any_cons, List.any_cons, ← hmean]
    · simp only [meaning, Plain.free, hstep]
    · intro entry hentry
      rcases List.mem_cons.1 hentry with rfl | hentry
      · exact ⟨Int.add_nonneg htarget (by decide), hbody⟩
      · exact h entry (List.mem_cons_of_mem _ hentry)
  | case6 target node rest loc fn arg hexp ih =>
    obtain ⟨htarget, hnode⟩ := h _ List.mem_cons_self
    obtain ⟨⟨hfn, harg⟩, hmean⟩ := regular_of_expose hnode hexp
    rw [ih, List.any_cons, List.any_cons, List.any_cons, ← hmean]
    · simp only [meaning, Plain.free, Bool.or_assoc]
    · intro entry hentry
      rcases List.mem_cons.1 hentry with rfl | hentry
      · exact ⟨htarget, hfn⟩
      · rcases List.mem_cons.1 hentry with rfl | hentry
        · exact ⟨htarget, harg⟩
        · exact h entry (List.mem_cons_of_mem _ hentry)
  | case7 target node rest r hvar hlam happ hexp =>
    obtain ⟨hreg, -⟩ := regular_of_expose (h _ List.mem_cons_self).2 hexp
    obtain ⟨loc, rfl⟩ := exists_unknown_of_expose hexp hvar hlam happ
    exact absurd hreg id

/-- **Whether an index is free is decided by the meaning.** -/
theorem occurs_regular {e : Term} (he : e.Regular) (k : Nat) :
    e.occurs k = .ok (e.meaning.free k) := by
  have h : ∀ entry ∈ [((k : Int), e)], 0 ≤ entry.1 ∧ entry.2.Regular := by
    intro entry hentry
    rw [List.mem_singleton.1 hentry]
    exact ⟨Int.natCast_nonneg k, he⟩
  rw [occurs, search_regular h]
  simp

end Term

end Nameless
