import Mathlib.Data.Nat.Init
import Nameless.Text.Literal

/-!
# Literals are printable

Diagnostics show names as literals, and names may hold any characters. Still a literal never holds a
character that is not printable (`Literal.isPrintable_of_mem_write`): what a character is replaced by
is made of quotes, backslashes, letters and digits.
-/

namespace Nameless.Literal

open Printable (isPrintable isPrintable_of_ascii)

/-- The digits of a code in hexadecimal are printable. -/
theorem isPrintable_of_mem_toDigits {c : Char} {code : Nat} (h : c ∈ Nat.toDigits 16 code) :
    isPrintable c = true := by
  have hdigit (d : Nat) (hd : d < 16) : isPrintable (Nat.digitChar d) = true := by
    have hascii : ∀ d < 16, 0x20 ≤ (Nat.digitChar d).toNat ∧ (Nat.digitChar d).toNat ≤ 0x7e := by
      decide
    exact isPrintable_of_ascii (hascii d hd).1 (hascii d hd).2
  induction code using Nat.strong_induction_on with
  | _ code ih =>
    rw [Nat.toDigits_eq_if (by decide)] at h
    split at h
    · rename_i hlt
      rw [List.mem_singleton.1 h]
      exact hdigit code hlt
    · rcases List.mem_append.1 h with h | h
      · exact ih (code / 16) (by omega) h
      · rw [List.mem_singleton.1 h]
        exact hdigit _ (Nat.mod_lt code (by decide))

/-- A backslash is printable, and so is what follows it if it is made of printable characters. -/
theorem isPrintable_of_mem_backslash {c : Char} {text : List Char}
    (htext : ∀ d ∈ text, isPrintable d = true) (h : c ∈ '\\' :: text) : isPrintable c = true := by
  rcases List.mem_cons.1 h with rfl | h
  · exact isPrintable_of_ascii (by decide) (by decide)
  · exact htext c h

/-- A code in hexadecimal is printable, also with a letter that says how long it is. -/
theorem isPrintable_of_mem_hex {c letter : Char} (hletter : isPrintable letter = true)
    {places code : Nat} (h : c ∈ '\\' :: letter :: hex places code) : isPrintable c = true := by
  refine isPrintable_of_mem_backslash (fun d hd => ?_) h
  rcases List.mem_cons.1 hd with rfl | hd
  · exact hletter
  · rcases List.mem_append.1 hd with hd | hd
    · rw [List.eq_of_mem_replicate hd]
      exact isPrintable_of_ascii (by decide) (by decide)
    · exact isPrintable_of_mem_toDigits hd

/-- A character that is written by its code is written in printable characters. -/
theorem isPrintable_of_mem_byCode {c d : Char} (h : d ∈ byCode c) : isPrintable d = true := by
  unfold byCode at h
  dsimp only at h
  split at h
  · exact isPrintable_of_mem_hex (isPrintable_of_ascii (by decide) (by decide)) h
  · split at h
    · exact isPrintable_of_mem_hex (isPrintable_of_ascii (by decide) (by decide)) h
    · exact isPrintable_of_mem_hex (isPrintable_of_ascii (by decide) (by decide)) h

/-- A character that is written by a letter is written in printable characters if the letter is
printable. -/
theorem isPrintable_of_mem_named {c letter : Char} (hletter : isPrintable letter = true)
    (h : c ∈ ['\\', letter]) : isPrintable c = true := by
  refine isPrintable_of_mem_backslash (fun d hd => ?_) h
  rw [List.mem_singleton.1 hd]
  exact hletter

/-- Between printable quotes, every character is written in printable characters. -/
theorem isPrintable_of_mem_escape {quote c d : Char} (hquote : isPrintable quote = true)
    (h : d ∈ escape quote c) : isPrintable d = true := by
  unfold escape at h
  split at h
  · rename_i hc
    rcases hc with rfl | rfl
    · exact isPrintable_of_mem_named hquote h
    · exact isPrintable_of_mem_named (isPrintable_of_ascii (by decide) (by decide)) h
  · split at h
    · exact isPrintable_of_mem_named (isPrintable_of_ascii (by decide) (by decide)) h
    · split at h
      · exact isPrintable_of_mem_named (isPrintable_of_ascii (by decide) (by decide)) h
      · split at h
        · exact isPrintable_of_mem_named (isPrintable_of_ascii (by decide) (by decide)) h
        · split at h
          · rename_i hprintable
            rw [List.mem_singleton.1 h]
            exact hprintable
          · exact isPrintable_of_mem_byCode h

/-- **Every character of a literal is printable**, whatever the text. -/
theorem isPrintable_of_mem_write {text : String} {c : Char} (h : c ∈ (write text).toList) :
    isPrintable c = true := by
  have hquote : isPrintable (quoteFor text.toList) = true := by
    unfold quoteFor
    split
    · exact isPrintable_of_ascii (by decide) (by decide)
    · exact isPrintable_of_ascii (by decide) (by decide)
  rw [write, String.toList_ofList, List.mem_cons, List.mem_append, List.mem_singleton] at h
  rcases h with rfl | h | rfl
  · exact hquote
  · obtain ⟨other, -, hmem⟩ := List.mem_flatMap.1 h
    exact isPrintable_of_mem_escape hquote hmem
  · exact hquote

end Nameless.Literal
