import Gsc.Number.Binary32
import Gsc.Text.Basic
import Mathlib.Data.List.TakeWhile
import Mathlib.Data.Nat.Digits.Defs

/-! # Decimal integers

What digits and a sign stand for, with or without white space around them.
-/

namespace Gsc

/-- Decimal digits stand for a number. -/
structure Denotes (chars : List Char) (n : Nat) : Prop where
  ne_nil : chars ≠ []
  digits : ∀ c ∈ chars, c.isDigit = true
  value : n = Nat.ofDigits 10 (chars.reverse.map fun c => c.toNat - '0'.toNat)

theorem digitsValue_eq_ofDigits (chars : List Char) :
    Binary32.digitsValue chars
      = Nat.ofDigits 10 (chars.reverse.map fun c => c.toNat - '0'.toNat) := by
  rw [Binary32.digitsValue, Nat.ofDigits_eq_foldr, List.foldr_map, List.foldr_reverse]
  simp only [Nat.cast_id, Nat.add_comm]

/-! ## White space around a text -/

namespace Text

theorem isBlank_of_isDigit {c : Char} (h : c.isDigit = true) : isBlank c = false := by
  have hdigit : 48 ≤ c.toNat ∧ c.toNat ≤ 57 := Char.isDigit_iff_toNat.1 h
  simp only [isBlank, Bool.or_eq_false_iff, Bool.and_eq_false_iff, decide_eq_false_iff_not]
  omega

theorem dropWhile_append_of_solid {body : List Char} (hne : body ≠ [])
    (h : ∀ c ∈ body, isBlank c = false) (rest : List Char) :
    (body ++ rest).dropWhile isBlank = body ++ rest := by
  cases body with
  | nil => exact (hne rfl).elim
  | cons c body => exact List.dropWhile_cons_of_neg (by simp [h c List.mem_cons_self])

theorem trim_append {front body back : List Char} (hne : body ≠ [])
    (hfront : ∀ c ∈ front, isBlank c = true) (hbody : ∀ c ∈ body, isBlank c = false)
    (hback : ∀ c ∈ back, isBlank c = true) : trim (front ++ body ++ back) = body := by
  have hlast : (body.reverse ++ []).dropWhile isBlank = body.reverse ++ [] :=
    dropWhile_append_of_solid (by simpa using hne) (by simpa using hbody) []
  rw [List.append_nil] at hlast
  rw [trim, List.append_assoc, List.dropWhile_append_of_pos hfront,
    dropWhile_append_of_solid hne hbody, List.reverse_append,
    List.dropWhile_append_of_pos (by simpa using hback), hlast, List.reverse_reverse]

/-- Only white space is cut off. -/
theorem exists_append_trim (chars : List Char) :
    ∃ front back, chars = front ++ trim chars ++ back ∧
      (∀ c ∈ front, isBlank c = true) ∧ ∀ c ∈ back, isBlank c = true := by
  refine ⟨chars.takeWhile isBlank,
    ((chars.dropWhile isBlank).reverse.takeWhile isBlank).reverse, ?_, ?_, ?_⟩
  · rw [trim, List.append_assoc, ← List.reverse_append, List.takeWhile_append_dropWhile,
      List.reverse_reverse, List.takeWhile_append_dropWhile]
  · exact fun c => List.mem_takeWhile_imp
  · exact fun c hc => List.mem_takeWhile_imp (List.mem_reverse.1 hc)

end Text

/-! ## Signs -/

/-- A decimal integer with an optional sign. -/
inductive Spells : List Char → Int → Prop
  | plain {digits : List Char} {n : Nat} (h : Denotes digits n) : Spells digits n
  | plus {digits : List Char} {n : Nat} (h : Denotes digits n) : Spells ('+' :: digits) n
  | minus {digits : List Char} {n : Nat} (h : Denotes digits n) : Spells ('-' :: digits) (-n)

/-- A text that is a decimal integer, but for white space around it. -/
def Numeral (s : String) (v : Int) : Prop :=
  ∃ front body back, s.toList = front ++ body ++ back ∧
    (∀ c ∈ front, Text.isBlank c = true) ∧ (∀ c ∈ back, Text.isBlank c = true) ∧ Spells body v

theorem Spells.solid {chars : List Char} {v : Int} (h : Spells chars v) :
    chars ≠ [] ∧ ∀ c ∈ chars, Text.isBlank c = false := by
  have hdigits : ∀ {digits n}, Denotes digits n → ∀ c ∈ digits, Text.isBlank c = false :=
    fun h c hc => Text.isBlank_of_isDigit (h.digits c hc)
  cases h with
  | plain h => exact ⟨h.ne_nil, hdigits h⟩
  | plus h => exact ⟨by simp, List.forall_mem_cons.2 ⟨by decide, hdigits h⟩⟩
  | minus h => exact ⟨by simp, List.forall_mem_cons.2 ⟨by decide, hdigits h⟩⟩

end Gsc
