import Gsc.Text.Utf8

/-! # Decoding what was encoded

Every text is read back from its bytes, and only the zero character has a zero byte. Whatever is
read as a character was written as one, so that a byte string which is no text is a text up to its
first fault.
-/

namespace Gsc.Utf8

theorem decodeAll_of_next {b : UInt8} {more rest : Bytes} {c : Char}
    (h : next b more = (some c.toNat, rest)) :
    decodeAll (b :: more) = some c :: decodeAll rest := by
  rw [decodeAll, h]
  simp

theorem next_of_lead {b : UInt8} {lead : Lead} (h : lead? b.toNat = some lead) (more : Bytes) :
    next b more = follow lead more := by
  simp [next, h]

/-! ## First bytes -/

theorem lead?_one {v : Nat} (h : v < 0x80) : lead? v = some ⟨v, 0, 0x80, 0xbf⟩ :=
  if_pos h

theorem lead?_two {v : Nat} (low : 0x80 ≤ v) (high : v < 0x800) :
    lead? (v / 64 % 32 + 0xc0) = some ⟨v / 64, 1, 0x80, 0xbf⟩ := by
  have hq : v / 64 % 32 = v / 64 := by omega
  rw [hq, lead?, if_neg (by omega), if_neg (by omega), if_pos (by omega), Nat.add_sub_cancel]

/-- Three bytes: the bounds of the second one admit exactly the code points that need three. -/
theorem lead?_three {v : Nat} (low : 0x800 ≤ v) (high : v < 0x10000)
    (scalar : v < 0xd800 ∨ 0xdfff < v) :
    ∃ first last, lead? (v / 4096 % 16 + 0xe0) = some ⟨v / 4096, 2, first, last⟩ ∧
      first ≤ v / 64 % 64 + 0x80 ∧ v / 64 % 64 + 0x80 ≤ last := by
  have hq : v / 4096 % 16 = v / 4096 := by omega
  rw [hq, lead?, if_neg (by omega), if_neg (by omega), if_neg (by omega)]
  split
  · exact ⟨_, _, by rw [show v / 4096 = 0 by omega], by omega, by omega⟩
  · split
    · exact ⟨_, _, by rw [show v / 4096 = 0xd by omega], by omega, by omega⟩
    · rw [if_pos (by omega), Nat.add_sub_cancel]
      exact ⟨_, _, rfl, by omega, by omega⟩

/-- Four bytes, with the bounds of the second one. -/
theorem lead?_four {v : Nat} (low : 0x10000 ≤ v) (high : v < 0x110000) :
    ∃ first last, lead? (v / 262144 % 8 + 0xf0) = some ⟨v / 262144, 3, first, last⟩ ∧
      first ≤ v / 4096 % 64 + 0x80 ∧ v / 4096 % 64 + 0x80 ≤ last := by
  have hq : v / 262144 % 8 = v / 262144 := by omega
  rw [hq, lead?, if_neg (by omega), if_neg (by omega), if_neg (by omega), if_neg (by omega),
    if_neg (by omega), if_neg (by omega)]
  split
  · exact ⟨_, _, by rw [show v / 262144 = 0 by omega], by omega, by omega⟩
  · split
    · rw [Nat.add_sub_cancel]
      exact ⟨_, _, rfl, by omega, by omega⟩
    · rw [if_pos (by omega)]
      exact ⟨_, _, by rw [show v / 262144 = 4 by omega], by omega, by omega⟩

/-! ## Following bytes -/

theorem follow_done (value low high : Nat) (rest : Bytes) :
    follow ⟨value, 0, low, high⟩ rest = (some value, rest) := by
  cases rest <;> rfl

/-- A byte within the bounds adds its six bits. -/
theorem follow_step {value count low high bits : Nat} (rest : Bytes) (hbits : bits < 64)
    (hlow : low ≤ bits + 0x80) (hhigh : bits + 0x80 ≤ high) :
    follow ⟨value, count + 1, low, high⟩ (UInt8.ofNat (bits + 0x80) :: rest) =
      follow ⟨64 * value + bits, count, 0x80, 0xbf⟩ rest := by
  have hb : (UInt8.ofNat (bits + 0x80)).toNat = bits + 0x80 := by
    simp only [UInt8.toNat_ofNat']
    omega
  rw [follow, hb, if_pos ⟨hlow, hhigh⟩, Nat.add_sub_cancel]

/-! ## Whole characters and texts -/

/-- Decoding takes exactly the bytes of the first character. -/
theorem decodeAll_encodeChar (c : Char) (rest : Bytes) :
    decodeAll (String.utf8EncodeChar c ++ rest) = some c :: decodeAll rest := by
  have hc : c.toNat < 0xd800 ∨ (0xdfff < c.toNat ∧ c.toNat < 0x110000) := c.valid
  have hv : c.val.toNat = c.toNat := rfl
  have byte : ∀ n, n < 256 → (UInt8.ofNat n).toNat = n := by
    intro n hn
    simp only [UInt8.toNat_ofNat']
    omega
  unfold String.utf8EncodeChar
  simp only [hv]
  split
  · apply decodeAll_of_next
    rw [next_of_lead (by rw [byte _ (by omega)]; exact lead?_one (by omega))]
    exact follow_done _ _ _ _
  · split
    · rw [List.cons_append, List.cons_append, List.nil_append]
      apply decodeAll_of_next
      rw [next_of_lead (by rw [byte _ (by omega)]; exact lead?_two (by omega) (by omega))]
      rw [follow_step _ (by omega) (by omega) (by omega), follow_done]
      congr 2
      omega
    · split
      · obtain ⟨first, last, hl, hlow, hhigh⟩ :=
          lead?_three (v := c.toNat) (by omega) (by omega) (by omega)
        rw [List.cons_append, List.cons_append, List.cons_append, List.nil_append]
        apply decodeAll_of_next
        rw [next_of_lead (by rw [byte _ (by omega)]; exact hl)]
        rw [follow_step _ (by omega) hlow hhigh, follow_step _ (by omega) (by omega) (by omega),
          follow_done]
        congr 2
        omega
      · obtain ⟨first, last, hl, hlow, hhigh⟩ :=
          lead?_four (v := c.toNat) (by omega) (by omega)
        rw [List.cons_append, List.cons_append, List.cons_append, List.cons_append,
          List.nil_append]
        apply decodeAll_of_next
        rw [next_of_lead (by rw [byte _ (by omega)]; exact hl)]
        rw [follow_step _ (by omega) hlow hhigh, follow_step _ (by omega) (by omega) (by omega),
          follow_step _ (by omega) (by omega) (by omega), follow_done]
        congr 2
        omega

theorem decodeAll_encode (chars : List Char) : decodeAll (encode chars) = chars.map some := by
  induction chars with
  | nil => simp [encode, decodeAll]
  | cons c chars ih =>
      have h := decodeAll_encodeChar c (encode chars)
      rw [ih] at h
      simpa [encode] using h

/-- Every text is read back from its bytes. -/
theorem decode?_encode (chars : List Char) : decode? (encode chars) = some chars := by
  rw [decode?, decodeAll_encode]
  induction chars with
  | nil => rfl
  | cons c chars ih => simp [List.mapM_cons, ih]

theorem toString?_ofString (s : String) : toString? (ofString s) = some s := by
  rw [toString?, ofString, decode?_encode]
  simp

/-! ## Characters without a zero byte -/

/-- Only the zero character has a zero byte. -/
theorem ne_zero_of_mem_encodeChar {c : Char} (h : c ≠ Char.ofNat 0) {b : UInt8}
    (hb : b ∈ String.utf8EncodeChar c) : b ≠ 0 := by
  have hc : c.toNat ≠ 0 := by
    intro hz
    apply h
    rw [← Char.ofNat_toNat c, hz]
  have byte : ∀ n, n % 256 ≠ 0 → UInt8.ofNat n ≠ 0 := by
    intro n hn hz
    have := congrArg UInt8.toNat hz
    simp only [UInt8.toNat_ofNat', UInt8.toNat_zero] at this
    omega
  have hv : c.val.toNat = c.toNat := rfl
  unfold String.utf8EncodeChar at hb
  simp only [hv] at hb
  split at hb
  · rw [List.mem_singleton.1 hb]
    exact byte _ (by omega)
  · split at hb
    · simp only [List.mem_cons, List.not_mem_nil, or_false] at hb
      rcases hb with rfl | rfl <;> exact byte _ (by omega)
    · split at hb
      · simp only [List.mem_cons, List.not_mem_nil, or_false] at hb
        rcases hb with rfl | rfl | rfl <;> exact byte _ (by omega)
      · simp only [List.mem_cons, List.not_mem_nil, or_false] at hb
        rcases hb with rfl | rfl | rfl | rfl <;> exact byte _ (by omega)

/-- A text without the zero character has no zero byte. -/
theorem zero_not_mem_encode {chars : List Char} (h : Char.ofNat 0 ∉ chars) :
    (0 : UInt8) ∉ encode chars := by
  intro hz
  obtain ⟨c, hc, hb⟩ := List.mem_flatMap.1 hz
  have hne : c ≠ Char.ofNat 0 := fun he => h (he ▸ hc)
  exact ne_zero_of_mem_encodeChar hne hb rfl

/-! ## Whatever is read was written so -/

theorem toNat_ofNat_of_scalar {v : Nat} (h : v < 0xd800 ∨ 0xdfff < v ∧ v < 0x110000) :
    (Char.ofNat v).toNat = v := by
  have hvalid : v.isValidChar := h
  rw [Char.ofNat, dif_pos hvalid]
  rfl

theorem encodeChar_one {v : Nat} (h : v < 0x80) :
    String.utf8EncodeChar (Char.ofNat v) = [UInt8.ofNat v] := by
  have hv : (Char.ofNat v).val.toNat = v := toNat_ofNat_of_scalar (by omega)
  simp only [String.utf8EncodeChar, hv]
  rw [if_pos (by omega)]

theorem encodeChar_two {x y : Nat} (hx : 2 ≤ x) (hx' : x < 32) (hy : y < 64) :
    String.utf8EncodeChar (Char.ofNat (64 * x + y)) =
      [UInt8.ofNat (x + 0xc0), UInt8.ofNat (y + 0x80)] := by
  have hv : (Char.ofNat (64 * x + y)).val.toNat = 64 * x + y := toNat_ofNat_of_scalar (by omega)
  simp only [String.utf8EncodeChar, hv]
  rw [if_neg (by omega), if_pos (by omega), show (64 * x + y) / 64 % 32 = x by omega,
    show (64 * x + y) % 64 = y by omega]

theorem encodeChar_three {x y z : Nat} (hx : x < 16) (hy : y < 64) (hz : z < 64)
    (hlow : 32 ≤ 64 * x + y) (hscalar : 64 * x + y < 0x360 ∨ 0x37f < 64 * x + y) :
    String.utf8EncodeChar (Char.ofNat (64 * (64 * x + y) + z)) =
      [UInt8.ofNat (x + 0xe0), UInt8.ofNat (y + 0x80), UInt8.ofNat (z + 0x80)] := by
  have hv : (Char.ofNat (64 * (64 * x + y) + z)).val.toNat = 64 * (64 * x + y) + z :=
    toNat_ofNat_of_scalar (by omega)
  simp only [String.utf8EncodeChar, hv]
  rw [if_neg (by omega), if_neg (by omega), if_pos (by omega),
    show (64 * (64 * x + y) + z) / 4096 % 16 = x by omega,
    show (64 * (64 * x + y) + z) / 64 % 64 = y by omega,
    show (64 * (64 * x + y) + z) % 64 = z by omega]

theorem encodeChar_four {x y z w : Nat} (hy : y < 64) (hz : z < 64) (hw : w < 64)
    (hlow : 16 ≤ 64 * x + y) (hhigh : 64 * x + y < 0x110) :
    String.utf8EncodeChar (Char.ofNat (64 * (64 * (64 * x + y) + z) + w)) =
      [UInt8.ofNat (x + 0xf0), UInt8.ofNat (y + 0x80), UInt8.ofNat (z + 0x80),
        UInt8.ofNat (w + 0x80)] := by
  have hv : (Char.ofNat (64 * (64 * (64 * x + y) + z) + w)).val.toNat
      = 64 * (64 * (64 * x + y) + z) + w := toNat_ofNat_of_scalar (by omega)
  simp only [String.utf8EncodeChar, hv]
  rw [if_neg (by omega), if_neg (by omega), if_neg (by omega),
    show (64 * (64 * (64 * x + y) + z) + w) / 262144 % 8 = x by omega,
    show (64 * (64 * (64 * x + y) + z) + w) / 4096 % 64 = y by omega,
    show (64 * (64 * (64 * x + y) + z) + w) / 64 % 64 = z by omega,
    show (64 * (64 * (64 * x + y) + z) + w) % 64 = w by omega]

/-- A byte that was followed lies within the bounds. -/
theorem exists_bits_of_follow {value count low high v : Nat} {bytes rest : Bytes}
    (hlow : 0x80 ≤ low) (hhigh : high ≤ 0xbf)
    (h : follow ⟨value, count + 1, low, high⟩ bytes = (some v, rest)) :
    ∃ bits more, bytes = UInt8.ofNat (bits + 0x80) :: more ∧ bits < 64 ∧ low ≤ bits + 0x80 ∧
      bits + 0x80 ≤ high ∧
      follow ⟨64 * value + bits, count, 0x80, 0xbf⟩ more = (some v, rest) := by
  cases bytes with
  | nil => cases h
  | cons b more =>
      rw [follow] at h
      split at h
      · rename_i hbounds
        refine ⟨b.toNat - 0x80, more, ?_, by omega, by omega, by omega, h⟩
        rw [Nat.sub_add_cancel (by omega), UInt8.ofNat_toNat]
      · cases h

/-- What a first byte can announce, by the number of bytes behind it. -/
inductive Announces : Nat → Lead → Prop
  | one {v : Nat} (h : v < 0x80) : Announces v ⟨v, 0, 0x80, 0xbf⟩
  | two {x : Nat} (low : 2 ≤ x) (high : x < 32) : Announces (x + 0xc0) ⟨x, 1, 0x80, 0xbf⟩
  | three {x first last : Nat} (high : x < 16) (hfirst : 0x80 ≤ first) (hlast : last ≤ 0xbf)
      (bounds : ∀ y, first ≤ y + 0x80 → y + 0x80 ≤ last →
        32 ≤ 64 * x + y ∧ (64 * x + y < 0x360 ∨ 0x37f < 64 * x + y)) :
      Announces (x + 0xe0) ⟨x, 2, first, last⟩
  | four {x first last : Nat} (hfirst : 0x80 ≤ first) (hlast : last ≤ 0xbf)
      (bounds : ∀ y, first ≤ y + 0x80 → y + 0x80 ≤ last →
        16 ≤ 64 * x + y ∧ 64 * x + y < 0x110) :
      Announces (x + 0xf0) ⟨x, 3, first, last⟩

theorem announces_of_lead? {n : Nat} {lead : Lead} (h : lead? n = some lead) :
    Announces n lead := by
  unfold lead? at h
  split at h
  · obtain rfl := Option.some.inj h
    exact .one ‹_›
  split at h
  · cases h
  split at h
  · obtain ⟨x, rfl⟩ : ∃ x, n = x + 0xc0 := ⟨n - 0xc0, by omega⟩
    rw [Nat.add_sub_cancel] at h
    obtain rfl := Option.some.inj h
    exact .two (by omega) (by omega)
  split at h
  · obtain rfl := Option.some.inj h
    subst n
    exact .three (x := 0) (by omega) (by omega) (by omega) (by omega)
  split at h
  · obtain rfl := Option.some.inj h
    subst n
    exact .three (x := 0xd) (by omega) (by omega) (by omega) (by omega)
  split at h
  · obtain ⟨x, rfl⟩ : ∃ x, n = x + 0xe0 := ⟨n - 0xe0, by omega⟩
    rw [Nat.add_sub_cancel] at h
    obtain rfl := Option.some.inj h
    exact .three (by omega) (by omega) (by omega) (by omega)
  split at h
  · obtain rfl := Option.some.inj h
    subst n
    exact .four (x := 0) (by omega) (by omega) (by omega)
  split at h
  · obtain ⟨x, rfl⟩ : ∃ x, n = x + 0xf0 := ⟨n - 0xf0, by omega⟩
    rw [Nat.add_sub_cancel] at h
    obtain rfl := Option.some.inj h
    exact .four (by omega) (by omega) (by omega)
  split at h
  · obtain rfl := Option.some.inj h
    subst n
    exact .four (x := 4) (by omega) (by omega) (by omega)
  · cases h

theorem eq_of_follow_done {value low high v : Nat} {bytes rest : Bytes}
    (h : follow ⟨value, 0, low, high⟩ bytes = (some v, rest)) : value = v ∧ bytes = rest := by
  rw [follow_done] at h
  cases h
  exact ⟨rfl, rfl⟩

/-- The bytes that are read for a character are those it is written in. -/
theorem eq_encodeChar_of_next {b : UInt8} {more rest : Bytes} {v : Nat}
    (h : next b more = (some v, rest)) :
    b :: more = String.utf8EncodeChar (Char.ofNat v) ++ rest := by
  unfold next at h
  split at h
  · rename_i lead hlead
    have hb : UInt8.ofNat b.toNat = b := UInt8.ofNat_toNat
    rw [← hb]
    generalize b.toNat = n at hlead ⊢
    cases announces_of_lead? hlead with
    | one hv =>
        obtain ⟨rfl, rfl⟩ := eq_of_follow_done h
        rw [encodeChar_one hv]
        rfl
    | two low high =>
        obtain ⟨y, more, rfl, hy, -, -, h⟩ := exists_bits_of_follow (by omega) (by omega) h
        obtain ⟨rfl, rfl⟩ := eq_of_follow_done h
        rw [encodeChar_two low high hy]
        rfl
    | three high hfirst hlast bounds =>
        obtain ⟨y, more, rfl, hy, hlow, hhigh, h⟩ := exists_bits_of_follow hfirst hlast h
        obtain ⟨z, more, rfl, hz, -, -, h⟩ := exists_bits_of_follow (by omega) (by omega) h
        obtain ⟨rfl, rfl⟩ := eq_of_follow_done h
        obtain ⟨hleast, hscalar⟩ := bounds y hlow hhigh
        rw [encodeChar_three high hy hz hleast hscalar]
        rfl
    | four hfirst hlast bounds =>
        obtain ⟨y, more, rfl, hy, hlow, hhigh, h⟩ := exists_bits_of_follow hfirst hlast h
        obtain ⟨z, more, rfl, hz, -, -, h⟩ := exists_bits_of_follow (by omega) (by omega) h
        obtain ⟨w, more, rfl, hw, -, -, h⟩ := exists_bits_of_follow (by omega) (by omega) h
        obtain ⟨rfl, rfl⟩ := eq_of_follow_done h
        obtain ⟨hleast, hmost⟩ := bounds y hlow hhigh
        rw [encodeChar_four hy hz hw hleast hmost]
        rfl
  · cases h

theorem decodeAll_encode_append (chars : List Char) (rest : Bytes) :
    decodeAll (encode chars ++ rest) = chars.map some ++ decodeAll rest := by
  induction chars with
  | nil => rfl
  | cons c chars ih =>
      have h := decodeAll_encodeChar c (encode chars ++ rest)
      rw [ih, ← List.append_assoc] at h
      exact h

/-- A byte string is a text, or there is a first fault in it with a text in front. -/
theorem exists_text_or_fault (bytes : Bytes) :
    (∃ chars, bytes = encode chars) ∨
      ∃ front b rest, bytes = encode front ++ b :: rest ∧ (next b rest).1 = none := by
  fun_induction decodeAll bytes with
  | case1 => exact .inl ⟨[], rfl⟩
  | case2 b rest ih =>
      cases hnext : next b rest with
      | mk first behind =>
          cases first with
          | none => exact .inr ⟨[], b, rest, rfl, by rw [hnext]⟩
          | some v =>
              rw [hnext] at ih
              have hread := eq_encodeChar_of_next hnext
              rcases ih with ⟨chars, rfl⟩ | ⟨front, b', rest', rfl, hfault⟩
              · exact .inl ⟨Char.ofNat v :: chars, hread⟩
              · refine .inr ⟨Char.ofNat v :: front, b', rest', ?_, hfault⟩
                rw [hread, ← List.append_assoc]
                rfl

end Gsc.Utf8
