import Nameless.Proofs.FreshName
import Nameless.Source.Text

/-!
# The text of a span says which place it is

The text of a span is put together from a file name, a line and two columns, without lengths and
with a bare `-` between numbers that may be negative. Still every part can be told from the next.

* **A quoted name is read back** (`Quoted.read?_write`): undoing the escapes and decoding the bytes
  gives the name again. Between its quotes no double quote stands unescaped (`Quoted.Guarded`), so
  it is clear where the name ends, whatever it holds (`Quoted.unescape_escaped`).
* **A number ends where no digit follows** (`Decimal.text_append_inj`).
* **So two spans have the same text exactly if they show the same place** (`Span.text_eq_iff`).
-/

namespace Nameless

/-! ## Quoted names -/

namespace Quoted

/-- Printable ASCII. -/
def IsPrintable (c : Char) : Prop := 32 ≤ c.toNat ∧ c.toNat ≤ 126

instance (c : Char) : Decidable (IsPrintable c) := inferInstanceAs (Decidable (_ ∧ _))

/-- No double quote stands in the text but behind a backslash that escapes it. -/
inductive Guarded : List Char → Prop where
  | nil : Guarded []
  | plain {c : Char} {rest : List Char} (hquote : c ≠ '"') (hbackslash : c ≠ '\\')
      (hrest : Guarded rest) : Guarded (c :: rest)
  | escaped (c : Char) {rest : List Char} (hrest : Guarded rest) : Guarded ('\\' :: c :: rest)

/-- One guarded text after the other is guarded. -/
theorem Guarded.append {chars chars' : List Char} (h : Guarded chars) (h' : Guarded chars') :
    Guarded (chars ++ chars') := by
  induction h with
  | nil => exact h'
  | plain hquote hbackslash _ ih => exact .plain hquote hbackslash ih
  | escaped c _ ih => exact .escaped c ih

/-- The byte that a letter after a backslash stands for, if it is the name of one. -/
def byteNamed? (letter : Char) : Option UInt8 :=
  if letter = '"' then some 34
  else if letter = '\\' then some 92
  else if letter = 'n' then some 10
  else if letter = 't' then some 9
  else if letter = 'r' then some 13
  else if letter = 'b' then some 8
  else none

/-- The value of a decimal digit. -/
def digit? (c : Char) : Option Nat := if c.isDigit then some (c.toNat - '0'.toNat) else none

/-- The byte that three decimal digits stand for. -/
def byteOfDigits? (a b c : Char) : Option UInt8 := do
  let hundreds ← digit? a
  let tens ← digit? b
  let ones ← digit? c
  let value := 100 * hundreds + 10 * tens + ones
  if value < 256 then some (.ofNat value) else none

/-- Undoes the escapes up to the first double quote that is not escaped: the bytes before it, and
the text behind it. -/
def unescape : List Char → Option (List UInt8 × List Char)
  | [] => none
  | '"' :: rest => some ([], rest)
  | '\\' :: letter :: rest =>
    match byteNamed? letter, rest with
    | some byte, rest => (unescape rest).map (Prod.map (byte :: ·) id)
    | none, second :: third :: rest =>
      match byteOfDigits? letter second third with
      | some byte => (unescape rest).map (Prod.map (byte :: ·) id)
      | none => none
    | none, _ => none
  | c :: rest => (unescape rest).map (Prod.map (.ofNat c.toNat :: ·) id)
termination_by structural chars => chars

/-- The text whose quoted form is given. -/
def read? (quoted : String) : Option String :=
  match quoted.toList with
  | '"' :: chars =>
    match unescape chars with
    | some (bytes, []) => String.fromUTF8? ⟨bytes.toArray⟩
    | _ => none
  | _ => none

/-! ### One byte -/

/-- The ways in which a byte is written. -/
theorem escape_cases (byte : UInt8) :
    (∃ letter, escape byte = ['\\', letter] ∧ byteNamed? letter = some byte ∧
      IsPrintable letter) ∨
    (∃ c, escape byte = [c] ∧ c.toNat = byte.toNat ∧ c ≠ '"' ∧ c ≠ '\\' ∧ IsPrintable c) ∨
    escape byte = '\\' :: threeDigits byte := by
  unfold escape
  cases hnamed : named? byte with
  | some letter =>
    refine .inl ⟨letter, rfl, ?_⟩
    unfold named? at hnamed
    repeat' split at hnamed
    all_goals cases hnamed
    all_goals
      subst byte
      exact ⟨rfl, by decide⟩
  | none =>
    refine .inr ?_
    by_cases hprintable : 32 ≤ byte ∧ byte ≤ 126
    · rw [if_pos hprintable]
      have hlow : 32 ≤ byte.toNat := UInt8.le_iff_toNat_le.1 hprintable.1
      have hhigh : byte.toNat ≤ 126 := UInt8.le_iff_toNat_le.1 hprintable.2
      have hchar : (Char.ofNat byte.toNat).toNat = byte.toNat := by
        have hvalid : byte.toNat.isValidChar := .inl (by omega)
        rw [Char.ofNat, dif_pos hvalid]
        rfl
      -- the double quote and the backslash have names, so this byte is neither
      have hother (special : UInt8) (hspecial : named? special ≠ none) : byte ≠ special := by
        rintro rfl
        exact hspecial hnamed
      refine .inl ⟨_, rfl, hchar, ?_, ?_, ?_⟩
      · intro hquote
        apply hother 34 (by decide)
        rw [← UInt8.toNat_inj, ← hchar, hquote]
        rfl
      · intro hbackslash
        apply hother 92 (by decide)
        rw [← UInt8.toNat_inj, ← hchar, hbackslash]
        rfl
      · unfold IsPrintable
        omega
    · exact .inr (if_neg hprintable)

/-- Digits are printable. -/
theorem isPrintable_digitChar : ∀ d < 10, IsPrintable (Nat.digitChar d) := by decide

/-- A digit has the value that it was written for. -/
theorem digit?_digitChar : ∀ d < 10, digit? (Nat.digitChar d) = some d := by decide

/-- No byte is named by a digit, so three digits are not mistaken for a name. -/
theorem byteNamed?_digitChar : ∀ d < 10, byteNamed? (Nat.digitChar d) = none := by decide

/-- A digit is neither the double quote nor the backslash. -/
theorem digitChar_ne : ∀ d < 10, Nat.digitChar d ≠ '"' ∧ Nat.digitChar d ≠ '\\' := by decide

/-- Three digits stand for the byte that they were written for. -/
theorem byteOfDigits?_threeDigits (byte : UInt8) :
    byteOfDigits? (Nat.digitChar (byte.toNat / 100)) (Nat.digitChar (byte.toNat / 10 % 10))
      (Nat.digitChar (byte.toNat % 10)) = some byte := by
  have hlt := byte.toNat_lt
  have hvalue : 100 * (byte.toNat / 100) + 10 * (byte.toNat / 10 % 10) + byte.toNat % 10 =
      byte.toNat := by omega
  rw [byteOfDigits?, digit?_digitChar _ (by omega), digit?_digitChar _ (by omega),
    digit?_digitChar _ (by omega)]
  simp only [Option.bind_eq_bind, Option.bind_some, hvalue, UInt8.ofNat_toNat]
  exact if_pos hlt

/-- A byte is written in printable ASCII. -/
theorem isPrintable_of_mem_escape {byte : UInt8} {c : Char} (h : c ∈ escape byte) :
    IsPrintable c := by
  have hbackslash : IsPrintable '\\' := by decide
  rcases escape_cases byte with ⟨letter, heq, -, hletter⟩ | ⟨d, heq, -, -, -, hd⟩ | heq
  · rw [heq] at h
    rcases List.mem_cons.1 h with rfl | h
    · exact hbackslash
    · exact List.mem_singleton.1 h ▸ hletter
  · rw [heq, List.mem_singleton] at h
    exact h ▸ hd
  · have hlt := byte.toNat_lt
    rw [heq, threeDigits] at h
    simp only [List.mem_cons, List.not_mem_nil, or_false] at h
    rcases h with rfl | rfl | rfl | rfl
    · exact hbackslash
    · exact isPrintable_digitChar _ (by omega)
    · exact isPrintable_digitChar _ (by omega)
    · exact isPrintable_digitChar _ (by omega)

/-- A byte is written without a bare double quote. -/
theorem guarded_escape (byte : UInt8) : Guarded (escape byte) := by
  rcases escape_cases byte with ⟨letter, heq, -⟩ | ⟨c, heq, -, hquote, hbackslash, -⟩ | heq
  · rw [heq]
    exact .escaped letter .nil
  · rw [heq]
    exact .plain hquote hbackslash .nil
  · have hlt := byte.toNat_lt
    obtain ⟨hquote, hbackslash⟩ := digitChar_ne (byte.toNat / 10 % 10) (by omega)
    obtain ⟨hquote', hbackslash'⟩ := digitChar_ne (byte.toNat % 10) (by omega)
    rw [heq]
    exact .escaped _ (.plain hquote hbackslash (.plain hquote' hbackslash' .nil))

/-- An escape is undone, whatever follows. -/
theorem unescape_escape (byte : UInt8) (rest : List Char) :
    unescape (escape byte ++ rest) = (unescape rest).map (Prod.map (byte :: ·) id) := by
  rcases escape_cases byte with
    ⟨letter, heq, hletter, -⟩ | ⟨c, heq, hc, hquote, hbackslash, -⟩ | heq
  · rw [heq, List.cons_append, List.singleton_append, unescape.eq_3 _ _ _ hletter]
  · rw [heq, List.singleton_append, unescape, hc, UInt8.ofNat_toNat]
    · exact hquote
    · exact fun _ _ h _ => hbackslash h
  · have hlt := byte.toNat_lt
    have hunnamed := byteNamed?_digitChar (byte.toNat / 100) (by omega)
    rw [heq, threeDigits]
    simp only [List.cons_append, List.nil_append]
    rw [unescape.eq_4 _ _ _ _ hunnamed, byteOfDigits?_threeDigits]

/-! ### Whole names -/

/-- What stands between the quotes. -/
def escaped (text : String) : List Char := text.toUTF8.data.toList.flatMap escape

/-- A quoted text is what is escaped, between double quotes. -/
theorem toList_write (text : String) : (write text).toList = '"' :: (escaped text ++ ['"']) :=
  String.toList_ofList

/-- Between the quotes, no double quote stands bare. -/
theorem guarded_escaped (text : String) : Guarded (escaped text) := by
  unfold escaped
  induction text.toUTF8.data.toList with
  | nil => exact .nil
  | cons byte bytes ih => exact (guarded_escape byte).append ih

/-- A quoted text is printable ASCII. -/
theorem isPrintable_of_mem_write {text : String} {c : Char} (h : c ∈ (write text).toList) :
    IsPrintable c := by
  have hquote : IsPrintable '"' := by decide
  rw [toList_write, List.mem_cons, List.mem_append, List.mem_singleton] at h
  rcases h with rfl | h | rfl
  · exact hquote
  · obtain ⟨byte, -, hmem⟩ := List.mem_flatMap.1 h
    exact isPrintable_of_mem_escape hmem
  · exact hquote

/-- A name ends at the closing quote, whatever follows. -/
theorem unescape_escaped (text : String) (rest : List Char) :
    unescape (escaped text ++ '"' :: rest) = some (text.toUTF8.data.toList, rest) := by
  unfold escaped
  induction text.toUTF8.data.toList with
  | nil => rfl
  | cons byte bytes ih =>
    rw [List.flatMap_cons, List.append_assoc, unescape_escape, ih]
    rfl

/-- The bytes of a text are decoded to it. -/
theorem fromUTF8?_toUTF8 (text : String) :
    String.fromUTF8? ⟨text.toUTF8.data.toList.toArray⟩ = some text := by
  simp only [String.fromUTF8?, Array.toArray_toList]
  exact dif_pos text.isValidUTF8

/-- **A quoted name is read back.** -/
theorem read?_write (text : String) : read? (write text) = some text := by
  rw [read?, toList_write]
  simp only [unescape_escaped, fromUTF8?_toUTF8]

/-- Different names are told apart, whatever follows. -/
theorem escaped_append_inj {text text' : String} {rest rest' : List Char}
    (h : escaped text ++ '"' :: rest = escaped text' ++ '"' :: rest') :
    text = text' ∧ rest = rest' := by
  have hread := unescape_escaped text rest
  rw [h, unescape_escaped, Option.some.injEq, Prod.mk.injEq] at hread
  have htext := fromUTF8?_toUTF8 text'
  rw [hread.1, fromUTF8?_toUTF8] at htext
  exact ⟨Option.some.inj htext, hread.2.symm⟩

end Quoted

/-! ## Numbers -/

namespace Decimal

/-- A text that does not go on with a digit. -/
def Ended (rest : List Char) : Prop := ∀ c ∈ rest.head?, c.isDigit = false

/-- The digits at the front are those of the number, if no other digit follows. -/
theorem takeWhile_text {n : Nat} {rest : List Char} (h : Ended rest) :
    ((text n).toList ++ rest).takeWhile Char.isDigit = (text n).toList := by
  have hrest : rest.takeWhile Char.isDigit = [] := by
    cases rest with
    | nil => rfl
    | cons c rest => simp [h c rfl]
  rw [List.takeWhile_append_of_pos fun c hc => isDigit_of_mem_text hc, hrest, List.append_nil]

/-- A natural number ends where no digit follows. -/
theorem text_natCast_append_inj {m n : Nat} {rest rest' : List Char} (hrest : Ended rest)
    (hrest' : Ended rest') (h : (text m).toList ++ rest = (text n).toList ++ rest') :
    m = n ∧ rest = rest' := by
  have hdigits := takeWhile_text (n := m) hrest
  rw [h, takeWhile_text hrest'] at hdigits
  obtain rfl : n = m := text_natCast_injective (String.toList_injective hdigits)
  exact ⟨rfl, List.append_cancel_left h⟩

/-- A natural number begins with a digit, so not with a minus sign. -/
theorem text_natCast_append_ne (n : Nat) (rest rest' : List Char) :
    (text n).toList ++ rest ≠ '-' :: rest' := by
  intro h
  cases hdigits : (text n).toList with
  | nil => exact text_natCast_toList_ne_nil n hdigits
  | cons c cs =>
    rw [hdigits, List.cons_append, List.cons.injEq] at h
    have hc : c.isDigit = true := isDigit_of_mem_text (n := n) (by simp [hdigits])
    rw [h.1] at hc
    exact absurd hc (by decide)

/-- A negative number is written as a minus sign and its absolute value. -/
theorem toList_text_of_neg {n : Int} (h : n < 0) :
    (text n).toList = '-' :: (text n.natAbs).toList := by
  rw [text_natCast, text, if_pos h, String.toList_append]
  rfl

/-- A number that is not negative is written as its absolute value. -/
theorem text_of_nonneg {n : Int} (h : 0 ≤ n) : text n = text n.natAbs := by
  rw [Int.natAbs_of_nonneg h]

/-- **A number ends where no digit follows**, and numbers that are not equal are not written
alike. -/
theorem text_append_inj {m n : Int} {rest rest' : List Char} (hrest : Ended rest)
    (hrest' : Ended rest') (h : (text m).toList ++ rest = (text n).toList ++ rest') :
    m = n ∧ rest = rest' := by
  rcases Int.lt_or_le m 0 with hm | hm
  · rcases Int.lt_or_le n 0 with hn | hn
    · rw [toList_text_of_neg hm, toList_text_of_neg hn, List.cons_append, List.cons_append,
        List.cons.injEq] at h
      obtain ⟨habs, hsame⟩ := text_natCast_append_inj hrest hrest' h.2
      exact ⟨by omega, hsame⟩
    · rw [toList_text_of_neg hm, text_of_nonneg hn, List.cons_append] at h
      exact absurd h.symm (text_natCast_append_ne _ _ _)
  · rcases Int.lt_or_le n 0 with hn | hn
    · rw [text_of_nonneg hm, toList_text_of_neg hn, List.cons_append] at h
      exact absurd h (text_natCast_append_ne _ _ _)
    · rw [text_of_nonneg hm, text_of_nonneg hn] at h
      obtain ⟨habs, hsame⟩ := text_natCast_append_inj hrest hrest' h
      exact ⟨by omega, hsame⟩

end Decimal

/-! ## Spans -/

namespace Span

/-- Two spans that begin in the same file, on the same line and in the same column, and end in the
same column, counted on the line on which they begin. -/
structure SamePlace (s t : Span) : Prop where
  file : s.start.file = t.start.file
  line : s.start.line = t.start.line
  first : s.start.offset - s.start.lineStart = t.start.offset - t.start.lineStart
  last : s.stop.offset - s.start.lineStart = t.stop.offset - t.start.lineStart

/-- What is shown of a span beside the name of its file. -/
def placeChars (s : Span) : List Char :=
  "line ".toList ++ ((Decimal.text s.shownLine).toList ++ (", characters ".toList ++
    ((Decimal.text s.firstColumn).toList ++ ('-' :: (Decimal.text s.lastColumn).toList))))

/-- Without a file, only the place is told. -/
theorem toList_text_unnamed {s : Span} (h : s.start.file = "") : s.text.toList = s.placeChars := by
  rw [text, if_pos h]
  simp [placeChars]

/-- With a file, its quoted name comes before the place. -/
theorem toList_text_named {s : Span} (h : s.start.file ≠ "") :
    s.text.toList = "file \"".toList ++ (Quoted.escaped s.start.file ++
      '"' :: (", ".toList ++ s.placeChars)) := by
  rw [text, if_neg h]
  simp [placeChars, Quoted.toList_write]

/-- The numbers that are shown can be told apart. -/
theorem placeChars_inj {s t : Span} (h : s.placeChars = t.placeChars) :
    s.shownLine = t.shownLine ∧ s.firstColumn = t.firstColumn ∧ s.lastColumn = t.lastColumn := by
  unfold placeChars at h
  obtain ⟨hline, h⟩ := Decimal.text_append_inj (by simp [Decimal.Ended]) (by simp [Decimal.Ended])
    (List.append_cancel_left h)
  obtain ⟨hfirst, h⟩ := Decimal.text_append_inj (by simp [Decimal.Ended]) (by simp [Decimal.Ended])
    (List.append_cancel_left h)
  have hcolumns : (Decimal.text s.lastColumn).toList ++ [] =
      (Decimal.text t.lastColumn).toList ++ [] := congrArg (· ++ []) (List.cons.inj h).2
  obtain ⟨hlast, -⟩ :=
    Decimal.text_append_inj (by simp [Decimal.Ended]) (by simp [Decimal.Ended]) hcolumns
  exact ⟨hline, hfirst, hlast⟩

/-- A place is not told like a file. -/
theorem placeChars_ne_named (s : Span) (chars : List Char) :
    s.placeChars ≠ "file \"".toList ++ chars := by
  intro h
  have hhead := congrArg List.head? h
  simp [placeChars] at hhead

/-- No span is told like a span that is missing. -/
theorem text_ne_unknown (s : Span) : s.text ≠ "unknown position" := by
  intro h
  have hlist := congrArg (fun text => text.toList.head?) h
  by_cases hs : s.start.file = ""
  · simp [toList_text_unnamed hs, placeChars] at hlist
  · simp [toList_text_named hs] at hlist

/-- A span whose numbers can be written has a text. -/
theorem describe_some {s : Span} (h : ∀ n ∈ s.numbers, Decimal.Writable n) :
    describe (some s) = .ok s.text := by
  rw [describe, if_pos h]

/-- **Two spans have the same text exactly if they show the same place.** -/
theorem text_eq_iff {s t : Span} : s.text = t.text ↔ s.SamePlace t := by
  constructor
  · intro h
    have hlist := congrArg String.toList h
    by_cases hs : s.start.file = ""
    · by_cases ht : t.start.file = ""
      · rw [toList_text_unnamed hs, toList_text_unnamed ht] at hlist
        obtain ⟨hline, hfirst, hlast⟩ := placeChars_inj hlist
        rw [shownLine, if_pos hs, shownLine, if_pos ht] at hline
        exact ⟨hs.trans ht.symm, by omega, hfirst, hlast⟩
      · rw [toList_text_unnamed hs, toList_text_named ht] at hlist
        exact absurd hlist (placeChars_ne_named s _)
    · by_cases ht : t.start.file = ""
      · rw [toList_text_named hs, toList_text_unnamed ht] at hlist
        exact absurd hlist.symm (placeChars_ne_named t _)
      · rw [toList_text_named hs, toList_text_named ht] at hlist
        obtain ⟨hfile, hplace⟩ := Quoted.escaped_append_inj (List.append_cancel_left hlist)
        obtain ⟨hline, hfirst, hlast⟩ := placeChars_inj (List.append_cancel_left hplace)
        rw [shownLine, if_neg hs, shownLine, if_neg ht] at hline
        exact ⟨hfile, hline, hfirst, hlast⟩
  · rintro ⟨hfile, hline, hfirst, hlast⟩
    have hshown : s.shownLine = t.shownLine := by rw [shownLine, shownLine, hfile, hline]
    have hfirst' : s.firstColumn = t.firstColumn := hfirst
    have hlast' : s.lastColumn = t.lastColumn := hlast
    rw [text, text, hshown, hfirst', hlast', hfile]

/-- **The text of a position says which position it is.** If the numbers that two spans show can be
written, where either span may be missing, then both have a text, and the texts are equal exactly if
both spans are missing or both are there and show the same place. For every name of a file, the
quoted form is printable ASCII between two double quotes, no double quote stands unescaped between
them, and the name is read back from it. -/
theorem describe_eq_iff_samePlace {a b : Option Span}
    (ha : ∀ s ∈ a, ∀ n ∈ s.numbers, Decimal.Writable n)
    (hb : ∀ s ∈ b, ∀ n ∈ s.numbers, Decimal.Writable n) :
    (∃ text text', describe a = .ok text ∧ describe b = .ok text' ∧
      (text = text' ↔ Option.Rel SamePlace a b)) ∧
    ∀ file : String,
      (∀ c ∈ (Quoted.write file).toList, Quoted.IsPrintable c) ∧
      (∃ inside, (Quoted.write file).toList = '"' :: (inside ++ ['"']) ∧
        Quoted.Guarded inside) ∧
      Quoted.read? (Quoted.write file) = some file := by
  refine ⟨?_, ?_⟩
  · cases a with
    | none =>
      cases b with
      | none => exact ⟨_, _, rfl, rfl, fun _ => .none, fun _ => rfl⟩
      | some t =>
        refine ⟨_, t.text, rfl, describe_some (hb t rfl), ?_, nofun⟩
        intro h
        exact absurd h.symm t.text_ne_unknown
    | some s =>
      cases b with
      | none =>
        refine ⟨s.text, _, describe_some (ha s rfl), rfl, ?_, nofun⟩
        intro h
        exact absurd h s.text_ne_unknown
      | some t =>
        refine ⟨s.text, t.text, describe_some (ha s rfl), describe_some (hb t rfl), ?_⟩
        rw [text_eq_iff, Option.rel_some_some]
  · intro file
    refine ⟨fun c => Quoted.isPrintable_of_mem_write, ?_, Quoted.read?_write file⟩
    exact ⟨Quoted.escaped file, Quoted.toList_write file, Quoted.guarded_escaped file⟩

/-- Columns may be negative, and where the offsets are counted from and where a span ends do not
show. A name with a letter outside ASCII is told apart from a name that spells its escape. -/
theorem describe_eq_iff_samePlace_negative :
    let a := some (⟨⟨"é\"", 1, 3, 2⟩, ⟨"", 7, 0, 1⟩⟩ : Span)
    let b := some (⟨⟨"é\"", 1, 5, 4⟩, ⟨"other", 9, 9, 3⟩⟩ : Span)
    let c := some (⟨⟨"\\195\\169\"", 1, 3, 2⟩, ⟨"", 7, 0, 1⟩⟩ : Span)
    (∀ s ∈ a, ∀ n ∈ s.numbers, Decimal.Writable n) ∧
      (∀ s ∈ b, ∀ n ∈ s.numbers, Decimal.Writable n) ∧
      (∀ s ∈ c, ∀ n ∈ s.numbers, Decimal.Writable n) ∧
      describe a = .ok "file \"\\195\\169\\\"\", line 1, characters -1--2" ∧
      describe a = describe b ∧ describe a ≠ describe c ∧
      Quoted.read? "\"\\195\\169\\\"\"" = some "é\"" := by
  intro a b c
  have hshort {s : Span} (h : ∀ n ∈ s.numbers, n.natAbs < 10) :
      ∀ n ∈ s.numbers, Decimal.Writable n := fun n hn => Decimal.writable_of_natAbs_lt (h n hn)
  have ha : ∀ s ∈ a, ∀ n ∈ s.numbers, Decimal.Writable n := by
    intro s hs
    cases Option.some.inj hs
    exact hshort (by decide)
  have hb : ∀ s ∈ b, ∀ n ∈ s.numbers, Decimal.Writable n := by
    intro s hs
    cases Option.some.inj hs
    exact hshort (by decide)
  have hc : ∀ s ∈ c, ∀ n ∈ s.numbers, Decimal.Writable n := by
    intro s hs
    cases Option.some.inj hs
    exact hshort (by decide)
  obtain ⟨⟨text, text', hdescribe, hdescribe', hsame⟩, hquoted⟩ := describe_eq_iff_samePlace ha hb
  obtain ⟨⟨text₁, text₂, hdescribe₁, hdescribe₂, hother⟩, -⟩ := describe_eq_iff_samePlace ha hc
  refine ⟨ha, hb, hc, ?_, ?_, ?_, ?_⟩
  · rw [show describe a = .ok (Span.text _) from describe_some (ha _ rfl)]
    rfl
  · rw [hdescribe, hdescribe', hsame.2 (.some ⟨rfl, rfl, rfl, rfl⟩)]
  · intro h
    rw [hdescribe₁, hdescribe₂] at h
    have hplace := Option.rel_some_some.1 (hother.1 (Except.ok.inj h))
    exact absurd hplace.file (by decide)
  · exact (hquoted "é\"").2.2

end Span

end Nameless
