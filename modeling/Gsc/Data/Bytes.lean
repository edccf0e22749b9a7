/-! # Byte strings and little-endian words -/

namespace Gsc

abbrev Bytes := List UInt8

namespace Bytes

/-- The `width` lowest bytes of a number, the lowest first. -/
def ofNat : Nat → Nat → Bytes
  | 0, _ => []
  | width + 1, n => n.toUInt8 :: ofNat width (n / 256)

/-- The number that bytes stand for, the lowest first. -/
def toNat : Bytes → Nat
  | [] => 0
  | b :: rest => b.toNat + 256 * toNat rest

/-- The first `count` bytes and the bytes behind them. -/
def split? : Nat → Bytes → Option (Bytes × Bytes)
  | 0, bytes => some ([], bytes)
  | _ + 1, [] => none
  | count + 1, b :: rest => (split? count rest).map fun (front, back) => (b :: front, back)

/-- The word of four bytes at an offset. -/
def word? (bytes : Bytes) (offset : Nat) : Option Nat :=
  (split? 4 (bytes.drop offset)).map fun (front, _) => toNat front

@[simp] theorem length_ofNat (width n : Nat) : (ofNat width n).length = width := by
  induction width generalizing n with
  | zero => rfl
  | succ width ih => simp [ofNat, ih]

theorem split?_eq_some_iff {count : Nat} {bytes front back : Bytes} :
    split? count bytes = some (front, back) ↔ bytes = front ++ back ∧ front.length = count := by
  induction count generalizing bytes front with
  | zero =>
    simp only [split?, Option.some.injEq, Prod.mk.injEq, List.length_eq_zero_iff]
    constructor
    · rintro ⟨rfl, rfl⟩
      simp
    · rintro ⟨rfl, rfl⟩
      simp
  | succ count ih =>
    cases bytes with
    | nil =>
      simp only [split?, reduceCtorEq, false_iff, not_and]
      intro h
      simp_all
    | cons b rest =>
      cases front with
      | nil => simp [split?]
      | cons c front =>
        simp only [split?, Option.map_eq_some_iff, Prod.exists, Prod.mk.injEq, List.cons.injEq,
          List.cons_append, List.length_cons, Nat.add_right_cancel_iff]
        constructor
        · rintro ⟨x, y, h, ⟨rfl, rfl⟩, rfl⟩
          simp [ih.1 h]
        · rintro ⟨⟨rfl, rfl⟩, h⟩
          exact ⟨front, back, ih.2 ⟨rfl, h⟩, ⟨rfl, rfl⟩, rfl⟩

end Bytes

end Gsc
