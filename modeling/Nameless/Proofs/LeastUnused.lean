import Mathlib.Data.Finset.Card
import Mathlib.Data.Finset.Dedup
import Mathlib.Order.Nat
import Nameless.Proofs.SuffixGrammar

/-!
# The least unused counter

A taken name is varied by counting up from its suffix, or from `1` if it has none. The counter that
comes out is the least one that gives an unused name.

* **The search is a loop** (`Name.Counting`): as long as the candidate is taken, the counter goes up
  by one. Striking candidates off the list of taken names does not change its course
  (`Name.firstUnused_counting`), since no later candidate is equal to an earlier one.
* **A loop that goes on uses up one taken name in each round** (`Name.rounds_le_card`), so there are
  no more rounds than different taken names.
* **So the least unused counter is found** (`Name.refresh_least_unused`), unless a number on the way
  to it has too many digits to be written, or the suffix too many to be read.
-/

namespace Nameless

/-- Where a number can be written, so can every smaller one. -/
theorem Decimal.Writable.of_le {m n : Nat} (h : Writable n) (hle : m ≤ n) : Writable m :=
  Nat.lt_of_le_of_lt hle h

namespace Name

/-! ## The loop -/

/-- Counting up from a counter: how many rounds there are, and what comes out. A round is taken if
the candidate of the counter is taken. -/
inductive Counting (base : String) (taken : List String) :
    Nat → Nat → Except DigitLimit String → Prop
  | found {counter : Nat} (hw : Decimal.Writable counter)
    (hfree : base ++ Decimal.text counter ∉ taken) :
    Counting base taken counter 0 (.ok (base ++ Decimal.text counter))
  | tooLong {counter : Nat} (hw : ¬ Decimal.Writable counter) :
    Counting base taken counter 0 (.error .writing)
  | next {counter rounds : Nat} {outcome : Except DigitLimit String}
    (hw : Decimal.Writable counter) (hmem : base ++ Decimal.text counter ∈ taken)
    (hrest : Counting base taken (counter + 1) rounds outcome) :
    Counting base taken counter (rounds + 1) outcome

namespace Counting

variable {base : String} {taken : List String} {counter rounds : Nat}
  {outcome : Except DigitLimit String}

/-- A name that is no candidate any more may be among the taken ones or not. -/
theorem of_strike {past : Nat} (hpast : past < counter)
    (h : Counting base (strike (base ++ Decimal.text past) taken) counter rounds outcome) :
    Counting base taken counter rounds outcome := by
  induction h with
  | @found counter hw hfree =>
    refine .found hw fun hmem => hfree (mem_strike.2 ⟨hmem, ?_⟩)
    intro heq
    have hsame : counter = past := candidate_inj heq
    omega
  | tooLong hw => exact .tooLong hw
  | next hw hmem hrest ih => exact .next hw (mem_strike.1 hmem).1 (ih (by omega))

/-- All candidates before the last one are taken. -/
theorem mem_of_lt (h : Counting base taken counter rounds outcome) {i : Nat} (hi : i < rounds) :
    base ++ Decimal.text ((counter + i : Nat) : Int) ∈ taken := by
  induction h generalizing i with
  | found hw hfree => omega
  | tooLong hw => omega
  | @next counter rounds outcome hw hmem hrest ih =>
    cases i with
    | zero => exact hmem
    | succ i =>
      have hnext := ih (i := i) (by omega)
      rwa [Nat.add_right_comm] at hnext

/-- What comes out is told by the last counter. -/
theorem outcome_cases (h : Counting base taken counter rounds outcome) :
    (Decimal.Writable ((counter + rounds : Nat) : Int) ∧
      base ++ Decimal.text ((counter + rounds : Nat) : Int) ∉ taken ∧
      outcome = .ok (base ++ Decimal.text ((counter + rounds : Nat) : Int))) ∨
    (¬ Decimal.Writable ((counter + rounds : Nat) : Int) ∧ outcome = .error .writing) := by
  induction h with
  | found hw hfree => exact .inl ⟨hw, hfree, rfl⟩
  | tooLong hw => exact .inr ⟨hw, rfl⟩
  | @next counter rounds outcome hw hmem hrest ih =>
    have hsum : counter + 1 + rounds = counter + (rounds + 1) := by omega
    rwa [hsum] at ih

end Counting

/-- **The search for an unused counter is the loop.** -/
theorem firstUnused_counting (base : String) (counter : Nat) (taken : List String) :
    ∃ rounds, Counting base taken counter rounds (firstUnused base counter taken) := by
  fun_induction firstUnused base counter taken with
  | case1 counter taken hw candidate hmem ih =>
    obtain ⟨rounds, hrest⟩ := ih
    exact ⟨rounds + 1, .next hw hmem (hrest.of_strike (Nat.lt_succ_self counter))⟩
  | case2 counter taken hw candidate hfree => exact ⟨0, .found hw hfree⟩
  | case3 counter taken hw => exact ⟨0, .tooLong hw⟩

/-! ## The least counter -/

/-- **Where so many candidates in a row are taken, there are at least so many taken names.** -/
theorem rounds_le_card {base : String} {taken : List String} {start rounds : Nat}
    (h : ∀ i < rounds, base ++ Decimal.text ((start + i : Nat) : Int) ∈ taken) :
    rounds ≤ taken.toFinset.card := by
  have hmaps : ∀ i ∈ Finset.range rounds,
      base ++ Decimal.text ((start + i : Nat) : Int) ∈ taken.toFinset := by
    intro i hi
    exact List.mem_toFinset.2 (h i (Finset.mem_range.1 hi))
  have hinj : Set.InjOn (fun i : Nat => base ++ Decimal.text ((start + i : Nat) : Int))
      (Finset.range rounds) := by
    intro i _ j _ heq
    have hsum : start + i = start + j := candidate_inj heq
    omega
  have hcard := Finset.card_le_card_of_injOn _ hmaps hinj
  rwa [Finset.card_range] at hcard

/-- There is a least unused counter, and it is not far away. -/
theorem exists_isLeast_unused (base : String) (start : Nat) (taken : List String) :
    ∃ c, IsLeast {c : Nat | start ≤ c ∧ base ++ Decimal.text c ∉ taken} c ∧
      c ≤ start + taken.toFinset.card := by
  have hnear : ∃ i ≤ taken.toFinset.card,
      base ++ Decimal.text ((start + i : Nat) : Int) ∉ taken := by
    by_contra hall
    push Not at hall
    have hcard : taken.toFinset.card + 1 ≤ taken.toFinset.card :=
      rounds_le_card fun i hi => hall i (Nat.le_of_lt_succ hi)
    omega
  obtain ⟨i, hi, hfree⟩ := hnear
  have hexists : ∃ c, start ≤ c ∧ base ++ Decimal.text ((c : Nat) : Int) ∉ taken :=
    ⟨start + i, Nat.le_add_right start i, hfree⟩
  have hleast := Nat.isLeast_find hexists
  refine ⟨Nat.find hexists, hleast, ?_⟩
  calc Nat.find hexists ≤ start + i := Nat.find_min' hexists ⟨Nat.le_add_right start i, hfree⟩
    _ ≤ start + taken.toFinset.card := Nat.add_le_add_left hi start

/-- **The loop ends at the least unused counter**, or before it at one that cannot be written. -/
theorem Counting.outcome_eq {base : String} {taken : List String} {start rounds : Nat}
    {outcome : Except DigitLimit String} (h : Counting base taken start rounds outcome) {c : Nat}
    (hc : IsLeast {c : Nat | start ≤ c ∧ base ++ Decimal.text c ∉ taken} c) :
    outcome = if Decimal.Writable c then .ok (base ++ Decimal.text c) else .error .writing := by
  obtain ⟨⟨hstart, hfree⟩, hleast⟩ := hc
  have hreach : start + rounds ≤ c := by
    by_contra hlt
    have hmem := h.mem_of_lt (i := c - start) (by omega)
    rw [Nat.add_sub_cancel' hstart] at hmem
    exact hfree hmem
  rcases h.outcome_cases with ⟨hw, hfound, rfl⟩ | ⟨hw, rfl⟩
  · have hle : c ≤ start + rounds := hleast ⟨Nat.le_add_right start rounds, hfound⟩
    have hlast : c = start + rounds := Nat.le_antisymm hle hreach
    rw [hlast, if_pos hw]
  · rw [if_neg fun hc => hw (hc.of_le hreach)]

/-- The counter from which a name with that suffix, or without one, is varied. -/
def firstCounter : Option Nat → Nat
  | none => 1
  | some suffix => suffix + 1

/-- A taken name that can be taken apart is varied by the loop, from its first counter on. -/
theorem refresh_counting {name : String} {taken : List String} (hmem : name ∈ taken)
    {base : String} {suffix : Option Nat} (hsplit : split name = .ok (base, suffix)) :
    ∃ rounds ≤ taken.toFinset.card,
      Counting base taken (firstCounter suffix) rounds (refresh name taken) := by
  have hsearch : refresh name taken = firstUnused base (firstCounter suffix) taken := by
    rw [refresh, if_pos hmem, hsplit]
    cases suffix with
    | none => rfl
    | some suffix => rfl
  obtain ⟨rounds, hloop⟩ := firstUnused_counting base (firstCounter suffix) taken
  rw [← hsearch] at hloop
  exact ⟨rounds, rounds_le_card fun i hi => hloop.mem_of_lt hi, hloop⟩

/-- So it is varied by the least unused counter, if that can be written. -/
theorem refresh_isLeast {name : String} {taken : List String} (hmem : name ∈ taken)
    {base : String} {suffix : Option Nat} (hsplit : split name = .ok (base, suffix)) :
    ∃ c, IsLeast {c : Nat | firstCounter suffix ≤ c ∧ base ++ Decimal.text c ∉ taken} c ∧
      c ≤ firstCounter suffix + taken.toFinset.card ∧
      refresh name taken =
        if Decimal.Writable c then .ok (base ++ Decimal.text c) else .error .writing := by
  obtain ⟨c, hleast, hnear⟩ := exists_isLeast_unused base (firstCounter suffix) taken
  obtain ⟨rounds, -, hloop⟩ := refresh_counting hmem hsplit
  exact ⟨c, hleast, hnear, hloop.outcome_eq hleast⟩

/-- A taken name that cannot be taken apart is not varied. -/
theorem refresh_of_mem_error {name : String} {taken : List String} (hmem : name ∈ taken)
    {x : DigitLimit} (hsplit : split name = .error x) : refresh name taken = .error x := by
  rw [refresh, if_pos hmem, hsplit]
  rfl

/-- **The least unused variant of a name is found.** A name that is not taken stays as it is. From a
taken one with a base and a suffix, the counter goes up, in at most as many rounds as there are
different taken names, to the least one from the first counter on whose candidate is not taken. It
fails only where that counter has too many digits to be written, or the suffix too many to be read:
never, if there is room for the suffix and for the first counter plus the number of taken names. -/
theorem refresh_least_unused (name : String) (taken : List String) :
    (name ∉ taken → refresh name taken = .ok name) ∧
    (name ∈ taken → ∀ base suffix, split name = .ok (base, suffix) →
      (∃ rounds ≤ taken.toFinset.card,
        Counting base taken (firstCounter suffix) rounds (refresh name taken)) ∧
      ∃ c, IsLeast {c : Nat | firstCounter suffix ≤ c ∧ base ++ Decimal.text c ∉ taken} c ∧
        c ≤ firstCounter suffix + taken.toFinset.card ∧
        refresh name taken =
          if Decimal.Writable c then .ok (base ++ Decimal.text c) else .error .writing) ∧
    (name ∈ taken → ∀ x, split name = .error x → refresh name taken = .error x ∧
      ∃ base digits, Suffixed name base digits ∧ Decimal.limit < digits.length ∧
        x = .reading digits.length) ∧
    (∀ result, refresh name taken = .ok result → result ∉ taken) ∧
    ((∀ base digits, Suffixed name base digits → digits.length ≤ Decimal.limit) →
      ∃ base suffix, split name = .ok (base, suffix) ∧
        (Decimal.Writable ((firstCounter suffix + taken.toFinset.card : Nat) : Int) →
          ∃ result, refresh name taken = .ok result)) := by
  refine ⟨fun hfree => if_neg hfree, ?_, ?_, fun result h => (refresh_eq_ok h).1, ?_⟩
  · intro hmem base suffix hsplit
    exact ⟨refresh_counting hmem hsplit, refresh_isLeast hmem hsplit⟩
  · intro hmem x hsplit
    exact ⟨refresh_of_mem_error hmem hsplit, split_eq_error hsplit⟩
  · intro hshort
    cases hsplit : split name with
    | error x =>
      obtain ⟨base, digits, hsuffixed, hlong, -⟩ := split_eq_error hsplit
      have hfits := hshort base digits hsuffixed
      omega
    | ok parts =>
      obtain ⟨base, suffix⟩ := parts
      refine ⟨base, suffix, rfl, ?_⟩
      intro hroom
      by_cases hmem : name ∈ taken
      · obtain ⟨c, -, hnear, hresult⟩ := refresh_isLeast hmem hsplit
        rw [if_pos (hroom.of_le hnear)] at hresult
        exact ⟨_, hresult⟩
      · exact ⟨name, if_neg hmem⟩

/-- The suffix of `x٧` is seven. With `x8` taken as well, no matter how often, one round is enough,
and the result is written in plain digits. -/
theorem refresh_least_unused_other_script :
    let taken := ["x٧", "x8", "x8", "y"]
    "x٧" ∈ taken ∧ split "x٧" = .ok ("x", some 7) ∧
      (∃ rounds ≤ 3, Counting "x" taken 8 rounds (refresh "x٧" taken)) ∧
      IsLeast {c : Nat | 8 ≤ c ∧ "x" ++ Decimal.text c ∉ taken} 9 ∧
      refresh "x٧" taken = .ok "x9" := by
  intro taken
  have hmem : "x٧" ∈ taken := by decide
  have hsplit : split "x٧" = .ok ("x", some 7) := rfl
  have hnine : IsLeast {c : Nat | 8 ≤ c ∧ "x" ++ Decimal.text c ∉ taken} 9 := by
    have htext : Decimal.text ((9 : Nat) : Int) = "9" := by decide
    refine ⟨⟨by decide, ?_⟩, ?_⟩
    · rw [htext]
      decide
    · rintro c ⟨hstart, hfree⟩
      by_contra hlt
      have hc : c = 8 := by omega
      subst hc
      exact hfree (by decide)
  obtain ⟨-, hvaried, -⟩ := refresh_least_unused "x٧" taken
  obtain ⟨hloop, c, hleast, -, hresult⟩ := hvaried hmem "x" (some 7) hsplit
  have hc : c = 9 := Nat.le_antisymm (hleast.2 hnine.1) (hnine.2 hleast.1)
  subst hc
  rw [if_pos (Decimal.writable_of_natAbs_lt (by decide))] at hresult
  exact ⟨hmem, hsplit, hloop, hnine, hresult⟩

end Name

end Nameless
