import Mathlib.Data.List.Basic
import Mathlib.Data.List.Induction
import Mathlib.Data.Nat.Digits.Defs
import Nameless.Proofs.FreshName

/-!
# The grammar of suffixes

A name has a suffix if it is a base, a run of digits, and at most one final line feed
(`Name.Suffixed`). To take a name apart is to recognise this grammar, and nothing else.

* **Digits of all scripts** have the value that is their distance from the zero of their script
  (`Digit.value?_eq_some_iff`), and a run of them stands for a number in base ten
  (`Digit.number_eq_ofDigits`). A number is read back from its decimal text
  (`Digit.number_text`).
* **There is only one way to see a suffix in a name** (`Name.Suffixed.unique`): the digits reach as
  far to the left as they can, since the base does not end in one.
* **A name is taken apart just as the grammar says** (`Name.split_suffix_grammar`). A name without a
  suffix is its own base. So a number that is put behind a base comes off again.
-/

namespace Nameless

/-! ## Digits -/

namespace Digit

/-- **The value of a digit is its distance from the zero of its script.** -/
theorem value?_eq_some_iff {c : Char} {v : Nat} :
    value? c = some v ↔ ∃ z ∈ zeros, v < 10 ∧ c.toNat = z + v := by
  unfold value?
  rw [Option.map_eq_some_iff]
  constructor
  · rintro ⟨z, hfind, hv⟩
    have hnear := List.find?_some hfind
    simp only [Bool.and_eq_true, decide_eq_true_eq] at hnear
    refine ⟨z, List.mem_of_find?_eq_some hfind, ?_, ?_⟩
    · omega
    · omega
  · rintro ⟨z, hz, hv, hc⟩
    refine ⟨z, ?_, by omega⟩
    obtain ⟨before, after, hsplit⟩ := List.append_of_mem hz
    rw [List.find?_eq_some_iff_append]
    refine ⟨by simp; omega, before, after, hsplit, ?_⟩
    -- an earlier zero is at least ten below this one
    intro earlier hearlier
    have happart := zeros_apart
    rw [hsplit, List.pairwise_append] at happart
    have hfar : earlier + 10 ≤ z := happart.2.2 earlier hearlier z List.mem_cons_self
    simp
    omega

/-- A digit of ASCII has its usual value. -/
theorem value?_of_isDigit {c : Char} (h : c.isDigit = true) :
    value? c = some (c.toNat - '0'.toNat) := by
  have hzero : '0'.toNat = 48 := rfl
  have hnine : '9'.toNat = 57 := rfl
  have hrange := Char.isDigit_iff_toNat.1 h
  rw [value?_eq_some_iff]
  exact ⟨48, List.mem_cons_self, by omega, by omega⟩

/-- The digits of ASCII are among those of all scripts. -/
theorem isDigit_of_ascii {c : Char} (h : c.isDigit = true) : isDigit c = true := by
  rw [isDigit, value?_of_isDigit h]
  rfl

/-- A line feed is no digit. -/
theorem isDigit_newline : isDigit '\n' = false := rfl

/-- Every digit of a run has a value. -/
theorem exists_values {digits : List Char} (h : ∀ c ∈ digits, isDigit c = true) :
    ∃ values : List Nat, digits.map value? = values.map some := by
  induction digits with
  | nil => exact ⟨[], rfl⟩
  | cons c digits ih =>
    obtain ⟨values, hvalues⟩ := ih fun d hd => h d (List.mem_cons_of_mem c hd)
    obtain ⟨v, hv⟩ := Option.isSome_iff_exists.1 (h c List.mem_cons_self)
    exact ⟨v :: values, by rw [List.map_cons, hv, hvalues, List.map_cons]⟩

/-- **A run of digits stands for a number in base ten**, whichever scripts they are from. -/
theorem number_eq_ofDigits {digits : List Char} {values : List Nat}
    (h : digits.map value? = values.map some) :
    number digits = Nat.ofDigits 10 values.reverse := by
  -- by induction from the last digit on, which counts once
  induction digits using List.reverseRecOn generalizing values with
  | nil =>
    obtain rfl : values = [] := List.map_eq_nil_iff.1 h.symm
    rfl
  | append_singleton digits c ih =>
    rw [List.map_append] at h
    obtain ⟨init, last, rfl, hinit, hlast⟩ := List.map_eq_append_iff.1 h.symm
    obtain ⟨v, rfl, hv⟩ := List.map_eq_singleton_iff.1 hlast
    rw [number_append_singleton, ih hinit.symm, ← hv, List.reverse_append, List.reverse_singleton,
      List.singleton_append, Nat.ofDigits_cons]
    simp [Nat.add_comm]

/-- A run of digits of ASCII stands for the usual number. -/
theorem number_of_isDigit {digits : List Char} (h : ∀ c ∈ digits, c.isDigit = true) :
    number digits = Nat.ofDigitChars 10 digits 0 := by
  refine List.foldl_ext _ _ 0 ?_
  intro n c hc
  rw [value?_of_isDigit (h c hc)]
  rfl

/-- **A number is read back from its decimal text.** -/
theorem number_text (n : Nat) : number (Decimal.text n).toList = n := by
  rw [number_of_isDigit fun c hc => Decimal.isDigit_of_mem_text hc, Decimal.text_natCast,
    Nat.toList_repr, Nat.ofDigitChars_ten_toDigits]

end Digit

/-- A number can be written exactly if its text is not too long to be read. -/
theorem Decimal.writable_iff_length_text {n : Nat} :
    Writable n ↔ (text n).toList.length ≤ limit := by
  have hlimit : 0 < limit := by decide
  unfold Writable
  generalize limit = bound at hlimit ⊢
  rw [text_natCast, Nat.toList_repr, Nat.length_toDigits_le_iff (by decide) hlimit]
  exact Iff.rfl

/-! ## Names -/

namespace Name

/-- A name with a suffix: a base, a run of digits, and at most one final line feed. The base is not
empty, holds no line feed and does not end in a digit. -/
structure Suffixed (name base : String) (digits : List Char) : Prop where
  toList_eq : name.toList = base.toList ++ digits ∨
    name.toList = base.toList ++ digits ++ ['\n']
  digits_ne_nil : digits ≠ []
  isDigit : ∀ c ∈ digits, Digit.isDigit c = true
  base_ne_nil : base.toList ≠ []
  no_newline : '\n' ∉ base.toList
  last_not_digit : ∀ c ∈ base.toList.getLast?, Digit.isDigit c = false

/-- Read backwards, a text is what is left without its final line feed, or that after a line
feed. -/
theorem eq_dropNewline (chars : List Char) :
    chars = dropNewline chars ∨ chars = '\n' :: dropNewline chars := by
  unfold dropNewline
  split
  · exact .inr rfl
  · exact .inl rfl

/-- The digits at the end of a name and what is before them are its suffix and its base, if they are
of the right form. -/
theorem suffixed_pieces {name : String} {backwards : List Char}
    (hback : backwards = dropNewline name.toList.reverse)
    (hdigits : (backwards.takeWhile Digit.isDigit).reverse ≠ [])
    (hbase : (backwards.dropWhile Digit.isDigit).reverse ≠ [])
    (hnewline : '\n' ∉ (backwards.dropWhile Digit.isDigit).reverse) :
    Suffixed name (String.ofList (backwards.dropWhile Digit.isDigit).reverse)
      (backwards.takeWhile Digit.isDigit).reverse where
  toList_eq := by
    have hpieces : backwards.reverse = (backwards.dropWhile Digit.isDigit).reverse ++
        (backwards.takeWhile Digit.isDigit).reverse := by
      rw [← List.reverse_append, List.takeWhile_append_dropWhile]
    rw [String.toList_ofList, ← hpieces, ← List.reverse_cons, hback]
    exact (eq_dropNewline name.toList.reverse).imp List.reverse_eq_iff.1 List.reverse_eq_iff.1
  digits_ne_nil := hdigits
  isDigit := by
    intro c hc
    have hall : (backwards.takeWhile Digit.isDigit).all Digit.isDigit = true := List.all_takeWhile
    exact List.all_eq_true.1 hall c (List.mem_reverse.1 hc)
  base_ne_nil := by rwa [String.toList_ofList]
  no_newline := by rwa [String.toList_ofList]
  last_not_digit := by
    intro c hc
    rw [String.toList_ofList, List.getLast?_reverse] at hc
    have hhead := List.head?_dropWhile_not Digit.isDigit backwards
    rwa [hc] at hhead

namespace Suffixed

variable {name base : String} {digits : List Char}

/-- Read backwards and without its final line feed, a name with a suffix is the digits and then the
base. -/
theorem dropNewline_reverse (h : Suffixed name base digits) :
    dropNewline name.toList.reverse = digits.reverse ++ base.toList.reverse := by
  rcases h.toList_eq with hname | hname
  · rw [hname, List.reverse_append]
    cases hlast : digits.reverse with
    | nil => exact absurd (List.reverse_eq_nil_iff.1 hlast) h.digits_ne_nil
    | cons c rest =>
      -- the last character is a digit, so it is no line feed that would be dropped
      have hdigit : Digit.isDigit c = true :=
        h.isDigit c (List.mem_reverse.1 (hlast ▸ List.mem_cons_self))
      have hc : c ≠ '\n' := by
        rintro rfl
        rw [Digit.isDigit_newline] at hdigit
        cases hdigit
      rw [List.cons_append, dropNewline]
      intro tail heq
      exact hc (List.cons.inj heq).1
  · rw [hname, List.reverse_append, List.reverse_append]
    rfl

/-- The digits are the longest run of digits at the end, and the base is what is before them. -/
theorem takeWhile_dropWhile (h : Suffixed name base digits) :
    (dropNewline name.toList.reverse).takeWhile Digit.isDigit = digits.reverse ∧
      (dropNewline name.toList.reverse).dropWhile Digit.isDigit = base.toList.reverse := by
  have hdigits : ∀ c ∈ digits.reverse, Digit.isDigit c = true :=
    fun c hc => h.isDigit c (List.mem_reverse.1 hc)
  rw [h.dropNewline_reverse, List.takeWhile_append_of_pos hdigits,
    List.dropWhile_append_of_pos hdigits]
  cases hlast : base.toList.reverse with
  | nil => exact absurd (List.reverse_eq_nil_iff.1 hlast) h.base_ne_nil
  | cons c rest =>
    have hend : base.toList.getLast? = some c := by
      rw [← List.head?_reverse, hlast]
      rfl
    have hc : Digit.isDigit c = false := h.last_not_digit c hend
    simp [hc]

/-- **There is only one way to see a suffix in a name.** -/
theorem unique (h : Suffixed name base digits) {base' : String} {digits' : List Char}
    (h' : Suffixed name base' digits') : base' = base ∧ digits' = digits := by
  obtain ⟨hdigits, hbase⟩ := h.takeWhile_dropWhile
  obtain ⟨hdigits', hbase'⟩ := h'.takeWhile_dropWhile
  constructor
  · exact String.toList_injective (List.reverse_injective (hbase'.symm.trans hbase))
  · exact List.reverse_injective (hdigits'.symm.trans hdigits)

/-- A name with a suffix comes apart into its base and the number that the digits stand for, unless
they are too many to be read. -/
theorem split_eq (h : Suffixed name base digits) :
    split name = if digits.length ≤ Decimal.limit then .ok (base, some (Digit.number digits))
      else .error (.reading digits.length) := by
  obtain ⟨hdigits, hbase⟩ := h.takeWhile_dropWhile
  have hpieces : ¬ (digits = [] ∨ base.toList = [] ∨ '\n' ∈ base.toList) := by
    simp [h.digits_ne_nil, h.base_ne_nil, h.no_newline]
  simp only [split, hdigits, hbase, List.reverse_reverse, if_neg hpieces, String.ofList_toList]
  by_cases hlong : digits.length ≤ Decimal.limit
  · rw [if_neg (by omega), if_pos hlong]
  · rw [if_pos (by omega), if_neg hlong]

/-- The final line feed is there or not, and not both. -/
theorem toList_eq_iff (h : Suffixed name base digits) :
    name.toList = base.toList ++ digits ↔ name.toList ≠ base.toList ++ digits ++ ['\n'] := by
  constructor
  · intro hname hnewline
    have hlength := congrArg List.length (hname.symm.trans hnewline)
    simp at hlength
  · exact fun hname => h.toList_eq.resolve_right hname

/-- A number behind a base is a suffix. -/
theorem of_text (hne : base.toList ≠ []) (hnewline : '\n' ∉ base.toList)
    (hlast : ∀ c ∈ base.toList.getLast?, Digit.isDigit c = false) (n : Nat) :
    Suffixed (base ++ Decimal.text n) base (Decimal.text n).toList where
  toList_eq := .inl String.toList_append
  digits_ne_nil := Decimal.text_natCast_toList_ne_nil n
  isDigit := fun _ hc => Digit.isDigit_of_ascii (Decimal.isDigit_of_mem_text hc)
  base_ne_nil := hne
  no_newline := hnewline
  last_not_digit := hlast

end Suffixed

/-- A name in which no suffix can be seen is its own base. -/
theorem split_of_not_suffixed {name : String}
    (h : ∀ base digits, ¬ Suffixed name base digits) : split name = .ok (name, none) := by
  unfold split
  extract_lets backwards digits base
  by_cases hpieces : digits = [] ∨ base = [] ∨ '\n' ∈ base
  · rw [if_pos hpieces]
  · simp only [not_or] at hpieces
    obtain ⟨hdigits, hbase, hnewline⟩ := hpieces
    exact absurd (suffixed_pieces rfl hdigits hbase hnewline) (h _ _)

/-- Only a suffix of too many digits keeps a name from being taken apart. -/
theorem split_eq_error {name : String} {x : DigitLimit} (h : split name = .error x) :
    ∃ base digits, Suffixed name base digits ∧ Decimal.limit < digits.length ∧
      x = .reading digits.length := by
  by_cases hsuffix : ∃ base digits, Suffixed name base digits
  · obtain ⟨base, digits, hsuffixed⟩ := hsuffix
    rw [hsuffixed.split_eq] at h
    by_cases hlong : digits.length ≤ Decimal.limit
    · rw [if_pos hlong] at h
      cases h
    · rw [if_neg hlong] at h
      cases h
      exact ⟨base, digits, hsuffixed, Nat.lt_of_not_le hlong, rfl⟩
  · rw [split_of_not_suffixed fun base digits h => hsuffix ⟨base, digits, h⟩] at h
    cases h

/-- **A name is taken apart just as the grammar of suffixes says.**

If a suffix can be seen in a name, it can be seen in one way only, and the name either ends in a
line feed or does not. The name then comes apart into the base and the number that the values of
the digits make in base ten; it fails exactly if there are too many digits to be read. Every other
name is its own base. So a number that can be written, put behind a base, comes off again. -/
theorem split_suffix_grammar :
    (∀ name base digits, Suffixed name base digits →
      (∀ base' digits', Suffixed name base' digits' → base' = base ∧ digits' = digits) ∧
      (name.toList = base.toList ++ digits ↔ name.toList ≠ base.toList ++ digits ++ ['\n']) ∧
      ∃ values : List Nat, digits.map Digit.value? = values.map some ∧
        split name =
          if digits.length ≤ Decimal.limit then .ok (base, some (Nat.ofDigits 10 values.reverse))
          else .error (.reading digits.length)) ∧
    (∀ name, (∀ base digits, ¬ Suffixed name base digits) → split name = .ok (name, none)) ∧
    ∀ base : String, base.toList ≠ [] → '\n' ∉ base.toList →
      (∀ c ∈ base.toList.getLast?, Digit.isDigit c = false) →
      ∀ n : Nat, Decimal.Writable n → split (base ++ Decimal.text n) = .ok (base, some n) := by
  refine ⟨?_, fun name h => split_of_not_suffixed h, ?_⟩
  · intro name base digits h
    obtain ⟨values, hvalues⟩ := Digit.exists_values h.isDigit
    refine ⟨fun base' digits' h' => h.unique h', h.toList_eq_iff, values, hvalues, ?_⟩
    rw [h.split_eq, Digit.number_eq_ofDigits hvalues]
  · intro base hne hnewline hlast n hn
    have hsuffixed := Suffixed.of_text hne hnewline hlast n
    rw [hsuffixed.split_eq, if_pos (Decimal.writable_iff_length_text.1 hn), Digit.number_text]

/-- In `x٠٧` with a final line feed the suffix is seven, written in another script and with a zero
in front. In `42` no suffix can be seen. And `12` comes off `x12`. -/
theorem split_suffix_grammar_line_feed :
    Suffixed "x٠٧\n" "x" ['٠', '٧'] ∧ split "x٠٧\n" = .ok ("x", some 7) ∧
      (∀ base digits, ¬ Suffixed "42" base digits) ∧ split "42" = .ok ("42", none) ∧
      Decimal.Writable ((12 : Nat) : Int) ∧
      split ("x" ++ Decimal.text ((12 : Nat) : Int)) = .ok ("x", some 12) := by
  obtain ⟨hsplit, hwhole, hback⟩ := split_suffix_grammar
  have hlast : ∀ c ∈ "x".toList.getLast?, Digit.isDigit c = false := by
    intro c hc
    obtain rfl : 'x' = c := Option.some.inj hc
    rfl
  have hseven : Suffixed "x٠٧\n" "x" ['٠', '٧'] := by
    refine ⟨.inr rfl, by decide, ?_, by decide, by decide, hlast⟩
    exact List.forall_mem_cons.2 ⟨rfl, List.forall_mem_cons.2 ⟨rfl, fun c hc => nomatch hc⟩⟩
  have hfortyTwo : ∀ base digits, ¬ Suffixed "42" base digits := by
    intro base digits h
    have hnone : [] = base.toList.reverse := h.takeWhile_dropWhile.2
    exact h.base_ne_nil (List.reverse_eq_nil_iff.1 hnone.symm)
  have htwelve : Decimal.Writable ((12 : Nat) : Int) :=
    Decimal.writable_iff_length_text.2 (by decide)
  obtain ⟨-, -, values, hvalues, hresult⟩ := hsplit _ _ _ hseven
  have hzeroSeven : [0, 7].map some = values.map some := hvalues
  obtain rfl : [0, 7] = values := List.map_injective_iff.2 (Option.some_injective Nat) hzeroSeven
  rw [if_pos (by decide)] at hresult
  exact ⟨hseven, hresult, hfortyTwo, hwhole _ hfortyTwo, htwelve,
    hback "x" (by decide) (by decide) hlast 12 htwelve⟩

end Name

end Nameless
