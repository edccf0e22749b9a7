import Gsc.Image.Assembly
import Gsc.Proofs.Bytes
import Gsc.Proofs.Image.StringPool

/-! # Stack regions read back

A region gives back the rows and the strings it was written from.
-/

namespace Gsc.Stack

def toRow (e : FunctionEntry) (nameOffset : UInt32) : StackRow := ⟨e.offset, e.size, nameOffset⟩

@[simp] theorem length_word (n : UInt32) : (word n).length = 4 :=
  Bytes.length_ofNat 4 _

@[simp] theorem length_row (e : FunctionEntry) (nameOffset : UInt32) :
    (row e nameOffset).length = 12 := by
  simp [row]

theorem toUInt32_toNat_word (n : UInt32) : (Bytes.toNat (word n)).toUInt32 = n := by
  rw [word, Bytes.toNat_ofNat_uint32]
  simp

theorem length_rows {functions : List FunctionEntry} {names : List UInt32}
    (h : names.length = functions.length) :
    (List.zipWith row functions names).flatten.length = 12 * functions.length := by
  induction functions generalizing names with
  | nil => simp
  | cons e functions ih =>
      cases names with
      | nil => cases h
      | cons o names =>
          have hl := ih (Nat.succ.inj h)
          simp only [List.zipWith_cons_cons, List.flatten_cons, List.length_append, length_row, hl,
            List.length_cons]
          omega

theorem rowAt_append (e : FunctionEntry) (nameOffset : UInt32) (tail : Bytes) :
    rowAt (row e nameOffset ++ tail) = toRow e nameOffset := by
  have hs : row e nameOffset ++ tail =
      word e.offset ++ (word e.size ++ (word nameOffset ++ tail)) := by
    simp [row, List.append_assoc]
  have h₁ : (row e nameOffset ++ tail).take 4 = word e.offset := by
    rw [hs, List.take_left' (length_word _)]
  have h₂ : ((row e nameOffset ++ tail).drop 4).take 4 = word e.size := by
    rw [hs, List.drop_left' (length_word _), List.take_left' (length_word _)]
  have h₃ : ((row e nameOffset ++ tail).drop 8).take 4 = word nameOffset := by
    rw [hs, ← List.append_assoc, List.drop_left' (by simp), List.take_left' (length_word _)]
  rw [rowAt, h₁, h₂, h₃, toUInt32_toNat_word, toUInt32_toNat_word, toUInt32_toNat_word]
  rfl

theorem rowsAt_rows {functions : List FunctionEntry} {names : List UInt32} (tail : Bytes)
    (h : names.length = functions.length) :
    rowsAt functions.length ((List.zipWith row functions names).flatten ++ tail) =
      List.zipWith toRow functions names := by
  induction functions generalizing names with
  | nil => rfl
  | cons e functions ih =>
      cases names with
      | nil => cases h
      | cons o names =>
          rw [List.zipWith_cons_cons, List.flatten_cons, List.append_assoc, List.length_cons,
            rowsAt, rowAt_append, List.drop_append_of_le_length (by simp),
            List.drop_of_length_le (by simp),
            List.nil_append, ih (Nat.succ.inj h), List.zipWith_cons_cons]

theorem length_write {functions : List FunctionEntry} {names : List UInt32}
    (h : names.length = functions.length) (pool : StringPool) :
    (write functions names pool).length = headerSize functions.length + pool.size := by
  rw [write, List.length_append, List.length_append, Bytes.length_ofNat, length_rows h, headerSize,
    StringPool.size]

/-- A region as it is written for functions whose names are in a pool that starts behind the
rows. -/
structure Written (stack : Bytes) (functions : List FunctionEntry) (names : List UInt32)
    (pool : StringPool) : Prop where
  eq_write : stack = write functions names pool
  paired : names.length = functions.length
  base : pool.base.toNat = headerSize functions.length
  faithful : pool.Faithful
  fits : stack.length ≤ regionLimit

namespace Written

variable {stack : Bytes} {functions : List FunctionEntry} {names : List UInt32} {pool : StringPool}

theorem length_eq (h : Written stack functions names pool) :
    stack.length = headerSize functions.length + pool.size := by
  rw [h.eq_write, length_write h.paired]

theorem count_eq (h : Written stack functions names pool) : count stack = .ok functions.length := by
  have hn : functions.length < 256 ^ 4 := by
    have := h.length_eq
    have := h.fits
    simp only [headerSize, regionLimit] at *
    omega
  rw [count, Bytes.word?, h.eq_write, write, List.drop_zero, List.append_assoc,
    Bytes.split?_append _ (Bytes.length_ofNat 4 _), Option.map_some]
  dsimp only
  rw [Bytes.toNat_ofNat hn]

theorem drop_header (h : Written stack functions names pool) :
    stack.drop (headerSize functions.length) = pool.bytes := by
  rw [h.eq_write, write, List.drop_append_of_le_length, List.drop_of_length_le, List.nil_append]
  all_goals
    apply Nat.le_of_eq
    rw [List.length_append, Bytes.length_ofNat, length_rows h.paired, headerSize]

/-- The rows of a region are those it was written from. -/
theorem readRows_eq (h : Written stack functions names pool) :
    readRows stack = .ok (List.zipWith toRow functions names) := by
  rw [readRows, h.count_eq]
  dsimp only
  rw [if_neg (by rw [h.length_eq]; omega)]
  rw [h.eq_write, write, List.append_assoc, List.drop_append_of_le_length (by simp),
    List.drop_of_length_le (by simp), List.nil_append, rowsAt_rows _ h.paired]

theorem exists_place (h : Written stack functions names pool) {s : String} {offset : UInt32}
    (hs : pool.Holds s offset) : ∃ place, StringPool.place? pool.strings s = some place ∧
      offset.toNat = headerSize functions.length + place := by
  obtain ⟨place, hget, ho⟩ := hs
  exact ⟨place.toNat, h.faithful.place?_of_get? hget, by rw [ho, h.base]⟩

theorem offset_mem_pool (h : Written stack functions names pool) {s : String} {offset : UInt32}
    (hs : pool.Holds s offset) :
    headerSize functions.length ≤ offset.toNat ∧ offset.toNat < stack.length := by
  obtain ⟨place, hp, ho⟩ := h.exists_place hs
  have hlt := StringPool.place_lt_sizeOf hp
  rw [ho, h.length_eq, h.faithful.size_eq]
  omega

theorem hasNul_eq_false (h : Written stack functions names pool) {s : String} {offset : UInt32}
    (hs : pool.Holds s offset) : StringPool.hasNul s = false := by
  obtain ⟨place, hp, -⟩ := h.exists_place hs
  exact h.faithful.clean s (StringPool.mem_of_place? hp)

/-- Every pooled string is read back. -/
theorem readString_eq (h : Written stack functions names pool) {s : String} {offset : UInt32}
    (hs : pool.Holds s offset) : readString stack offset = .ok s := by
  have hnul := h.hasNul_eq_false hs
  have hzero : (0 : UInt8) ∉ Utf8.ofString s := by
    apply Utf8.zero_not_mem_encode
    simpa [StringPool.hasNul] using hnul
  obtain ⟨place, hp, ho⟩ := h.exists_place hs
  obtain ⟨rest, hr⟩ := StringPool.drop_flatMap_entry hp
  have hd : stack.drop offset.toNat = Utf8.ofString s ++ 0 :: rest := by
    rw [ho, ← List.drop_drop, h.drop_header, h.faithful.bytes_eq, hr]
  have htake : (Utf8.ofString s ++ 0 :: rest).takeWhile (· ≠ 0) = Utf8.ofString s := by
    rw [List.takeWhile_append_of_pos]
    · simp
    · intro b hb
      simp only [ne_eq, decide_eq_true_eq]
      intro he
      exact hzero (he ▸ hb)
  rw [readString, h.count_eq]
  dsimp only
  rw [if_neg (by rw [ho]; omega), hd]
  cases hb : Utf8.ofString s ++ 0 :: rest with
  | nil => simp at hb
  | cons b more =>
      have hc : (b :: more).contains 0 = true := by
        rw [← hb]
        simp
      dsimp only
      rw [if_pos hc, ← hb, htake, Utf8.toString?_ofString]

end Written

end Gsc.Stack
