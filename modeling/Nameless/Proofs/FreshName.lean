import Nameless.Name.Fresh

/-!
# What a fresh name looks like

Varying a name by counting keeps two promises (`Name.refresh_eq_ok`).

* **A fresh name is not taken**: no two counters are written alike, so a candidate that was struck
  off does not come back.
* **A fresh name is the name itself or a piece of it with a number at its end** (`Name.Counted`).
  One with a number at its end has no characters but digits and those of the name
  (`Name.Counted.mem`), and it ends in a digit (`Name.Counted.getLast?`), so no name but the
  placeholder itself is ever varied into the placeholder (`Name.Counted.ne_placeholder`).
-/

namespace Nameless

namespace Decimal

/-- A natural number is written in its digits. -/
theorem text_natCast (n : Nat) : text n = n.repr := by
  unfold text
  rw [if_neg (by omega), Int.natAbs_natCast]

/-- Different natural numbers are written differently. -/
theorem text_natCast_injective {m n : Nat} (h : text m = text n) : m = n := by
  rw [text_natCast, text_natCast] at h
  have hdigits : Nat.toDigits 10 m = Nat.toDigits 10 n := by
    rw [← Nat.toList_repr, ← Nat.toList_repr, h]
  rw [← Nat.ofDigitChars_ten_toDigits (n := m), hdigits, Nat.ofDigitChars_ten_toDigits]

/-- A natural number is written in digits only. -/
theorem isDigit_of_mem_text {n : Nat} {c : Char} (h : c ∈ (text n).toList) : c.isDigit = true := by
  rw [text_natCast, Nat.toList_repr] at h
  exact Nat.isDigit_of_mem_toDigits (by decide) (by decide) h

/-- A number has at least one digit. -/
theorem text_natCast_toList_ne_nil (n : Nat) : (text n).toList ≠ [] := by
  rw [text_natCast, Nat.toList_repr]
  exact Nat.toDigits_ne_nil

end Decimal

namespace Name

/-- A piece of a name, followed by a number. -/
def Counted (name result : String) : Prop :=
  ∃ base : String, (∀ c ∈ base.toList, c ∈ name.toList) ∧
    ∃ counter : Nat, result = base ++ Decimal.text counter

/-- Different counters make different candidates. -/
theorem candidate_inj {base : String} {m n : Nat}
    (h : base ++ Decimal.text m = base ++ Decimal.text n) : m = n := by
  have htext : Decimal.text m = Decimal.text n := by
    have hlist := congrArg String.toList h
    simpa [String.ext_iff] using hlist
  exact Decimal.text_natCast_injective htext

/-- The search for an unused counter ends at a name that is not taken. -/
theorem firstUnused_eq_ok {base : String} {counter : Nat} {taken : List String} {name : String}
    (h : firstUnused base counter taken = .ok name) :
    name ∉ taken ∧ ∃ c, counter ≤ c ∧ name = base ++ Decimal.text c := by
  fun_induction firstUnused base counter taken with
  | case1 counter taken hw candidate hmem ih =>
    obtain ⟨hnot, c, hc, rfl⟩ := ih h
    refine ⟨?_, c, by omega, rfl⟩
    intro htaken
    apply hnot
    rw [mem_strike]
    refine ⟨htaken, ?_⟩
    intro heq
    have hsame : c = counter := candidate_inj heq
    omega
  | case2 counter taken hw candidate hnot =>
    have hname : candidate = name := Except.ok.inj h
    rw [← hname]
    exact ⟨hnot, counter, Nat.le_refl _, rfl⟩
  | case3 => cases h

/-- A first candidate that is not taken is the one. -/
theorem firstUnused_of_not_mem {base : String} {counter : Nat} {taken : List String}
    (hw : Decimal.Writable counter) (h : base ++ Decimal.text counter ∉ taken) :
    firstUnused base counter taken = .ok (base ++ Decimal.text counter) := by
  unfold firstUnused
  exact (if_pos hw).trans (dif_neg h)

/-- The base of a name is a piece of it. -/
theorem mem_of_mem_split {name base : String} {suffix : Option Nat}
    (h : split name = .ok (base, suffix)) {c : Char} (hc : c ∈ base.toList) : c ∈ name.toList := by
  unfold split at h
  extract_lets backwards digits base' at h
  split at h
  · cases h
    exact hc
  · split at h
    · cases h
    · cases h
      rw [String.toList_ofList, List.mem_reverse] at hc
      have hback : c ∈ dropNewline name.toList.reverse := List.dropWhile_subset _ hc
      have hdrop : ∀ chars : List Char, c ∈ dropNewline chars → c ∈ chars := by
        intro chars hmem
        unfold dropNewline at hmem
        split at hmem
        · exact List.mem_cons_of_mem _ hmem
        · exact hmem
      exact List.mem_reverse.1 (hdrop _ hback)

/-- **A fresh name is not taken, and it is the name itself or a piece of it with a number at its
end.** -/
theorem refresh_eq_ok {name : String} {taken : List String} {result : String}
    (h : refresh name taken = .ok result) :
    result ∉ taken ∧ (result = name ∨ Counted name result) := by
  unfold refresh at h
  split at h
  · rename_i hmem
    cases hsplit : split name with
    | error x =>
      rw [hsplit] at h
      cases h
    | ok parts =>
      obtain ⟨base, suffix⟩ := parts
      rw [hsplit] at h
      have hbase : ∀ c ∈ base.toList, c ∈ name.toList := fun c hc => mem_of_mem_split hsplit hc
      cases suffix with
      | none =>
        obtain ⟨hnot, c, -, rfl⟩ := firstUnused_eq_ok h
        exact ⟨hnot, .inr ⟨base, hbase, c, rfl⟩⟩
      | some suffix =>
        obtain ⟨hnot, c, -, rfl⟩ := firstUnused_eq_ok h
        exact ⟨hnot, .inr ⟨base, hbase, c, rfl⟩⟩
  · rename_i hmem
    cases h
    exact ⟨hmem, .inl rfl⟩

/-- A name with a number at its end ends in a digit. -/
theorem Counted.getLast? {name result : String} (h : Counted name result) :
    ∃ c, result.toList.getLast? = some c ∧ c.isDigit = true := by
  obtain ⟨base, -, counter, rfl⟩ := h
  have hne := Decimal.text_natCast_toList_ne_nil counter
  refine ⟨(Decimal.text counter).toList.getLast hne, ?_, ?_⟩
  · rw [String.toList_append, List.getLast?_append, List.getLast?_eq_some_getLast hne]
    rfl
  · exact Decimal.isDigit_of_mem_text (List.getLast_mem hne)

/-- Every character of a name with a number at its end is a digit or comes from the name. -/
theorem Counted.mem {name result : String} (h : Counted name result) {c : Char}
    (hc : c ∈ result.toList) : c ∈ name.toList ∨ c.isDigit = true := by
  obtain ⟨base, hbase, counter, rfl⟩ := h
  rw [String.toList_append, List.mem_append] at hc
  rcases hc with hc | hc
  · exact .inl (hbase c hc)
  · exact .inr (Decimal.isDigit_of_mem_text hc)

/-- A name with a number at its end is not the placeholder. -/
theorem Counted.ne_placeholder {name result : String} (h : Counted name result) : result ≠ "_" := by
  rintro rfl
  obtain ⟨c, hlast, hdigit⟩ := h.getLast?
  have hc : '_' = c := Option.some.inj hlast
  rw [← hc] at hdigit
  cases hdigit

/-- Whether a name is found does not depend on how a bound on digits is reported. -/
theorem mapError_digits_eq_ok {found : Except DigitLimit String} {name : String} :
    found.mapError Failure.digits = .ok name ↔ found = .ok name := by
  cases found with
  | error bound =>
    constructor
    · intro h
      cases h
    · intro h
      cases h
  | ok result =>
    constructor
    · intro h
      cases h
      rfl
    · intro h
      cases h
      rfl

/-- What counting makes of a name. -/
theorem Freshen.counting_eq_ok (asked : List Query) {name : String} {taken : List String}
    {result : String} (h : Freshen.counting asked name taken = .ok result) :
    result ∉ taken ∧ (result = name ∨ Counted name result) :=
  refresh_eq_ok (mapError_digits_eq_ok.1 h)

end Name

end Nameless
