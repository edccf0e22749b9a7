import Gsc.Data.Bytes
import Mathlib.Algebra.Group.Nat.Defs

/-! # Little-endian words read back

A number written in enough bytes is read back as itself, and bytes read as a number are written
again as they were. A byte string splits in front of what was put behind it.
-/

namespace Gsc.Bytes

theorem toNat_ofNat {width n : Nat} (h : n < 256 ^ width) : toNat (ofNat width n) = n := by
  induction width generalizing n with
  | zero =>
      have hn : n = 0 := by simpa using h
      simp [ofNat, toNat, hn]
  | succ width ih =>
      have hq : n / 256 < 256 ^ width := by
        rw [Nat.div_lt_iff_lt_mul (by decide)]
        simpa [Nat.pow_succ] using h
      have hb : n.toUInt8.toNat = n % 256 := by simp
      rw [ofNat, toNat, ih hq, hb]
      exact Nat.mod_add_div n 256

@[simp] theorem toNat_singleton (b : UInt8) : toNat [b] = b.toNat := by
  simp [toNat]

theorem toNat_ofNat_uint16 (v : UInt16) : (toNat (ofNat 2 v.toNat)).toUInt16 = v := by
  rw [toNat_ofNat v.toNat_lt]
  simp

theorem toNat_ofNat_uint32 (v : UInt32) : toNat (ofNat 4 v.toNat) = v.toNat :=
  toNat_ofNat v.toNat_lt

theorem toNat_lt (bytes : Bytes) : toNat bytes < 256 ^ bytes.length := by
  induction bytes with
  | nil => simp [toNat]
  | cons b rest ih =>
      have hb := b.toNat_lt
      rw [toNat, List.length_cons, Nat.pow_succ]
      omega

theorem ofNat_toNat (bytes : Bytes) : ofNat bytes.length (toNat bytes) = bytes := by
  induction bytes with
  | nil => rfl
  | cons b rest ih =>
      have hb := b.toNat_lt
      have hlow : (b.toNat + 256 * toNat rest).toUInt8 = b := by
        rw [← UInt8.toNat_inj]
        simp only [Nat.toUInt8_eq, UInt8.toNat_ofNat']
        omega
      have hhigh : (b.toNat + 256 * toNat rest) / 256 = toNat rest := by omega
      rw [List.length_cons, toNat, ofNat, hlow, hhigh, ih]

theorem ofNat_toUInt16 {bytes : Bytes} (h : bytes.length = 2) :
    ofNat 2 (toNat bytes).toUInt16.toNat = bytes := by
  have hlt := toNat_lt bytes
  rw [h] at hlt
  rw [Nat.toUInt16_eq, UInt16.toNat_ofNat_of_lt' hlt, ← h, ofNat_toNat]

theorem ofNat_toUInt32 {bytes : Bytes} (h : bytes.length = 4) :
    ofNat 4 (toNat bytes).toUInt32.toNat = bytes := by
  have hlt := toNat_lt bytes
  rw [h] at hlt
  rw [Nat.toUInt32_eq, UInt32.toNat_ofNat_of_lt' hlt, ← h, ofNat_toNat]

theorem split?_append {count : Nat} {front : Bytes} (back : Bytes) (h : front.length = count) :
    split? count (front ++ back) = some (front, back) :=
  split?_eq_some_iff.2 ⟨rfl, h⟩

theorem split?_eq_ite (count : Nat) (bytes : Bytes) :
    split? count bytes
      = if bytes.length < count then none else some (bytes.take count, bytes.drop count) := by
  split
  · cases h : split? count bytes with
    | none => rfl
    | some parts =>
        obtain ⟨rfl, hlen⟩ := split?_eq_some_iff.1 h
        rw [List.length_append] at *
        omega
  · exact split?_eq_some_iff.2 ⟨(List.take_append_drop count bytes).symm, by simp; omega⟩

end Gsc.Bytes
