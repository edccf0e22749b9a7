import Gsc.Proofs.Bytes
import Gsc.Proofs.Deflate.Huffman
import Gsc.Proofs.Except

/-! # Inflating gives what a stream stands for

Every reader is shown to take the bits that its part of the format allows, in the order in which
they stand, and to stop right behind them. Where the bytes reach the limit a reader may stop before,
with a part of the bytes that reaches it too.
-/

namespace Gsc.Deflate

/-! ## Bits -/

@[simp] theorem bitsOf_nil : bitsOf [] = [] := rfl

theorem bitsOf_cons (b : UInt8) (bytes : Bytes) :
    bitsOf (b :: bytes) = Bits.ofByte b ++ bitsOf bytes :=
  List.flatMap_cons

theorem bitsOf_append (front back : Bytes) : bitsOf (front ++ back) = bitsOf front ++ bitsOf back :=
  List.flatMap_append

namespace Bits

theorem length_ofByte (b : UInt8) : (ofByte b).length = 8 := by
  simp [ofByte]

theorem ofByte_injective {a b : UInt8} (h : ofByte a = ofByte b) : a = b := by
  apply UInt8.toNat_inj.1
  apply Nat.eq_of_testBit_eq
  intro i
  by_cases hi : i < 8
  · exact List.map_inj_left.1 h i (List.mem_range.2 hi)
  · have hle : 2 ^ 8 ≤ 2 ^ i := Nat.pow_le_pow_right (by omega) (by omega)
    rw [Nat.testBit_lt_two_pow (Nat.lt_of_lt_of_le a.toNat_lt hle),
      Nat.testBit_lt_two_pow (Nat.lt_of_lt_of_le b.toNat_lt hle)]

end Bits

theorem length_bitsOf (bytes : Bytes) : (bitsOf bytes).length = 8 * bytes.length := by
  induction bytes with
  | nil => rfl
  | cons b bytes ih =>
      rw [bitsOf_cons, List.length_append, Bits.length_ofByte, ih, List.length_cons]
      omega

/-- Bytes whose bits begin with those of other bytes begin with these bytes. -/
theorem bitsOf_eq_append {bytes front : Bytes} {rest : List Bool}
    (h : bitsOf bytes = bitsOf front ++ rest) :
    ∃ back, bytes = front ++ back ∧ rest = bitsOf back := by
  induction front generalizing bytes with
  | nil => exact ⟨bytes, rfl, h.symm⟩
  | cons c front ih =>
      cases bytes with
      | nil =>
          have hlength := congrArg List.length h
          rw [bitsOf_cons, List.length_append, List.length_append, Bits.length_ofByte, bitsOf_nil,
            List.length_nil] at hlength
          omega
      | cons b bytes =>
          rw [bitsOf_cons, bitsOf_cons, List.append_assoc] at h
          obtain ⟨hbyte, hrest⟩ :=
            List.append_inj h (by rw [Bits.length_ofByte, Bits.length_ofByte])
          obtain ⟨back, rfl, hback⟩ := ih hrest
          rw [Bits.ofByte_injective hbyte]
          exact ⟨back, rfl, hback⟩

namespace Bits

/-- What is left to read at a position of the whole: these bits, whose first ones fill up the byte
of the position. -/
structure At (b : Bits) (pos : Nat) (rest : List Bool) : Prop where
  eq : b.pending ++ bitsOf b.bytes = rest
  short : b.pending.length < 8
  aligned : (pos + b.pending.length) % 8 = 0

theorem at_ofBytes {pos : Nat} (bytes : Bytes) (h : pos % 8 = 0) :
    (ofBytes bytes).At pos (bitsOf bytes) :=
  ⟨rfl, by simp [ofBytes], by simpa [ofBytes] using h⟩

namespace At

variable {b : Bits} {pos : Nat} {rest : List Bool}

theorem size_eq (h : b.At pos rest) : b.size = rest.length := by
  rw [← h.eq, List.length_append, length_bitsOf]
  rfl

theorem lt_size {bits : List Bool} (h : b.At pos (bits ++ rest)) : bits.length < b.size + 1 := by
  rw [h.size_eq, List.length_append]
  omega

theorem next? {x : Bool} (h : b.At pos (x :: rest)) :
    ∃ b', b.next? = some (x, b') ∧ b'.At (pos + 1) rest := by
  obtain ⟨pending, bytes⟩ := b
  obtain ⟨heq, hshort, haligned⟩ := h
  cases pending with
  | cons y pending =>
      obtain ⟨rfl, rfl⟩ := List.cons.inj heq
      simp only [List.length_cons] at hshort haligned
      exact ⟨⟨pending, bytes⟩, rfl, rfl, by simp only; omega, by simp only; omega⟩
  | nil =>
      cases bytes with
      | nil => cases heq
      | cons c bytes =>
          have hbyte : ofByte c = c.toNat.testBit 0 :: (ofByte c).tail := rfl
          have hlength := length_ofByte c
          dsimp only at heq
          rw [List.nil_append, bitsOf_cons, hbyte] at heq
          obtain ⟨rfl, rfl⟩ := List.cons.inj heq
          rw [hbyte, List.length_cons] at hlength
          simp only [List.length_nil] at haligned
          exact ⟨⟨(ofByte c).tail, bytes⟩, rfl, rfl, by simp only; omega, by simp only; omega⟩

theorem take? {bits : List Bool} (h : b.At pos (bits ++ rest)) :
    ∃ b', b.take? bits.length = some (numberOf bits, b') ∧ b'.At (pos + bits.length) rest := by
  induction bits generalizing b pos with
  | nil => exact ⟨b, rfl, h⟩
  | cons x bits ih =>
      obtain ⟨b₁, h₁, hat₁⟩ := h.next?
      obtain ⟨b₂, h₂, hat₂⟩ := ih hat₁
      refine ⟨b₂, ?_, ?_⟩
      · rw [List.length_cons, Bits.take?, h₁]
        simp only [h₂, numberOf]
      · rw [List.length_cons, Nat.add_comm bits.length, ← Nat.add_assoc]
        exact hat₂

/-- Behind bits that fill up a byte there are whole bytes. -/
theorem bytes_eq {padding : List Bool} {bytes : Bytes}
    (h : b.At pos (padding ++ (bitsOf bytes ++ rest))) (hshort : padding.length < 8)
    (haligned : (pos + padding.length) % 8 = 0) :
    ∃ back, b.bytes = bytes ++ back ∧ rest = bitsOf back := by
  obtain ⟨heq, hb, ha⟩ := h
  have hlength : b.pending.length = padding.length := by omega
  exact bitsOf_eq_append (List.append_inj heq hlength).2

end At

end Bits

/-! ## Code words -/

def CodeTree.Holds (t : CodeTree) (lengths : List Nat) : Prop :=
  ∀ symbol word, codeWord? lengths symbol = some word → t.subtree? word = some (.symbol symbol)

theorem CodeTree.read?_of_subtree? {t : CodeTree} {word rest : List Bool} {symbol pos : Nat}
    {b : Bits} (h : t.subtree? word = some (.symbol symbol)) (hb : b.At pos (word ++ rest)) :
    ∃ b', t.read? b = some (symbol, b') ∧ b'.At (pos + word.length) rest := by
  induction word generalizing t b pos with
  | nil =>
      cases h
      exact ⟨b, rfl, hb⟩
  | cons x word ih =>
      cases t with
      | unused => cases h
      | symbol value => cases h
      | fork left right =>
          obtain ⟨b₁, h₁, hat⟩ := hb.next?
          obtain ⟨b₂, h₂, hat₂⟩ := ih h hat
          refine ⟨b₂, ?_, ?_⟩
          · rw [CodeTree.read?, h₁]
            cases x with
            | false => exact h₂
            | true => exact h₂
          · rw [List.length_cons, Nat.add_comm word.length, ← Nat.add_assoc]
            exact hat₂

theorem extended?_of_extended {table : List (Nat × Nat)} {symbol n pos : Nat}
    {added rest : List Bool} {b : Bits} (h : Extended table symbol added n)
    (hb : b.At pos (added ++ rest)) :
    ∃ b', extended? table symbol b = some (n, b') ∧ b'.At (pos + added.length) rest := by
  obtain ⟨hentry⟩ := h
  obtain ⟨b₁, h₁, hat⟩ := hb.take?
  refine ⟨b₁, ?_, hat⟩
  simp [extended?, hentry, h₁]

/-! ## Copies -/

theorem Copied.next_byte {distance length : Nat} {out next : Bytes}
    (h : Copied distance (length + 1) out next) :
    ∃ x, byteBack distance out.toArray = x ∧ Copied distance length (out ++ [x]) next := by
  obtain ⟨tail, rfl⟩ := h.keeps
  have hlength := h.length_eq
  rw [List.length_append] at hlength
  cases tail with
  | nil => simp at hlength
  | cons x tail =>
      rw [List.length_cons] at hlength
      have hsame := h.same out.length (Nat.le_refl _) (by simp)
      have hpos := h.positive
      have hinside := h.inside
      refine ⟨x, ?_, hpos, by simp; omega, ⟨tail, by simp⟩, by simp; omega, ?_⟩
      · rw [List.getElem?_append_right (Nat.le_refl _), Nat.sub_self, List.getElem?_cons_zero,
          List.getElem?_append_left (by omega)] at hsame
        simp [byteBack, hinside, ← hsame]
      · intro i hi
        rw [List.length_append] at hi
        exact h.same i (by omega)

theorem copyBack_of_copied {distance length : Nat} {out next : Bytes}
    (h : Copied distance length out next) :
    copyBack distance length out.toArray = next.toArray := by
  induction length generalizing out with
  | zero =>
      rw [copyBack, h.keeps.eq_of_length h.length_eq.symm]
  | succ length ih =>
      obtain ⟨x, hx, hrest⟩ := h.next_byte
      rw [copyBack, hx, List.push_toArray, ih hrest]

/-! ## Symbols -/

theorem Symbols.keeps {literals distances : List Nat} {out last : Bytes} {bits : List Bool}
    (h : Symbols literals distances out bits last) : out <+: last := by
  induction h with
  | stop => exact List.prefix_rfl
  | literal b h hrest ih => exact (List.prefix_append _ _).trans ih
  | copy h hlength h' hdistance hcopy hrest ih => exact hcopy.keeps.trans ih

/-- What a reader gives that is to read up to `last`: all of it, with `rest` left from position
`pos` on, or a part of it that reaches the limit. -/
inductive ReadsTo (limit : Nat) (last : Bytes) (pos : Nat) (rest : List Bool) :
    Option (Array UInt8 × Bits) → Prop
  | all {b : Bits} (hb : b.At pos rest) : ReadsTo limit last pos rest (some (last.toArray, b))
  | part {out : Bytes} {b : Bits} (hlimit : limit ≤ out.length) (hpart : out <+: last) :
      ReadsTo limit last pos rest (some (out.toArray, b))

theorem readSymbols_of_limit_le {first second : CodeTree} {limit fuel : Nat} {out : Bytes}
    {b : Bits} (h : limit ≤ out.length) :
    readSymbols first second limit (fuel + 1) out.toArray b = some (out.toArray, b) := by
  rw [readSymbols, if_pos (by simpa using h)]

theorem readSymbols_of_symbols {first second : CodeTree} {literals distances : List Nat}
    (hfirst : first.Holds literals) (hsecond : second.Holds distances) (limit : Nat)
    {fuel pos : Nat} {out last : Bytes} {bits rest : List Bool} {b : Bits}
    (h : Symbols literals distances out bits last) (hfuel : bits.length < fuel)
    (hb : b.At pos (bits ++ rest)) :
    ReadsTo limit last (pos + bits.length) rest
      (readSymbols first second limit fuel out.toArray b) := by
  obtain ⟨fuel, rfl⟩ : ∃ n, fuel = n + 1 := ⟨fuel - 1, by omega⟩
  induction h generalizing fuel pos b with
  | @stop out word h =>
      by_cases hfull : limit ≤ out.length
      · rw [readSymbols_of_limit_le hfull]
        exact .part hfull List.prefix_rfl
      obtain ⟨b₁, h₁, hat⟩ := CodeTree.read?_of_subtree? (hfirst _ _ h) hb
      rw [readSymbols, if_neg (by simpa using hfull), h₁]
      exact .all hat
  | @literal out last word rest' c h hrest ih =>
      by_cases hfull : limit ≤ out.length
      · rw [readSymbols_of_limit_le hfull]
        exact .part hfull (Symbols.literal c h hrest).keeps
      have hpos := length_codeWord_pos h
      rw [List.length_append] at hfuel ⊢
      rw [List.append_assoc] at hb
      obtain ⟨b₁, h₁, hat⟩ := CodeTree.read?_of_subtree? (hfirst _ _ h) hb
      obtain ⟨fuel, rfl⟩ : ∃ n, fuel = n + 1 := ⟨fuel - 1, by omega⟩
      have hnext := ih hat fuel (by omega)
      rw [readSymbols, if_neg (by simpa using hfull), h₁]
      dsimp only
      rw [if_pos c.toNat_lt, ← Nat.add_assoc]
      simpa using hnext
  | @copy out next last word added word' added' rest' symbol symbol' length distance h hlength h'
        hdistance hcopy hrest ih =>
      by_cases hfull : limit ≤ out.length
      · rw [readSymbols_of_limit_le hfull]
        exact .part hfull (hcopy.keeps.trans hrest.keeps)
      have hpos := length_codeWord_pos h
      simp only [List.length_append] at hfuel ⊢
      simp only [List.append_assoc] at hb
      obtain ⟨b₁, h₁, hat₁⟩ := CodeTree.read?_of_subtree? (hfirst _ _ h) hb
      obtain ⟨b₂, h₂, hat₂⟩ := extended?_of_extended hlength hat₁
      obtain ⟨b₃, h₃, hat₃⟩ := CodeTree.read?_of_subtree? (hsecond _ _ h') hat₂
      obtain ⟨b₄, h₄, hat₄⟩ := extended?_of_extended hdistance hat₃
      obtain ⟨fuel, rfl⟩ : ∃ n, fuel = n + 1 := ⟨fuel - 1, by omega⟩
      have hnext := ih hat₄ fuel (by omega)
      rw [readSymbols, if_neg (by simpa using hfull), h₁]
      dsimp only
      rw [if_neg (by omega), if_neg (by omega), Nat.add_sub_cancel_left, h₂]
      simp only [Option.bind_eq_bind, Option.bind_some, h₃, h₄, copyBack_of_copied hcopy,
        ← Nat.add_assoc]
      exact hnext

/-! ## Codes -/

theorem PackedLengths.length_le {code lengths all : List Nat} {bits : List Bool}
    (h : PackedLengths code lengths bits all) : lengths.length ≤ all.length := by
  induction h with
  | done => exact Nat.le_refl _
  | one h hn hrest ih =>
      rw [List.length_append] at ih
      omega
  | again h hadded hn hrest ih =>
      rw [List.length_append] at ih
      omega
  | zeros hsymbol h hadded hrest ih =>
      rw [List.length_append] at ih
      omega

theorem readLengths_of_packed {tree : CodeTree} {code : List Nat} (htree : tree.Holds code)
    {lengths all : List Nat} {bits rest : List Bool} {fuel pos : Nat} {b : Bits}
    (h : PackedLengths code lengths bits all) (hfuel : all.length - lengths.length < fuel)
    (hb : b.At pos (bits ++ rest)) :
    ∃ b', readLengths tree all.length fuel lengths.toArray b = some (all, b') ∧
      b'.At (pos + bits.length) rest := by
  obtain ⟨fuel, rfl⟩ : ∃ n, fuel = n + 1 := ⟨fuel - 1, by omega⟩
  induction h generalizing fuel pos b with
  | done =>
      refine ⟨b, ?_, hb⟩
      rw [readLengths, if_neg (by simp), if_pos (by simp)]
  | @one lengths all word rest' n h hn hrest ih =>
      have hle := hrest.length_le
      rw [List.length_append, List.length_singleton] at hle
      rw [List.append_assoc] at hb
      obtain ⟨b₁, h₁, hat⟩ := CodeTree.read?_of_subtree? (htree _ _ h) hb
      obtain ⟨fuel, rfl⟩ : ∃ n, fuel = n + 1 := ⟨fuel - 1, by omega⟩
      obtain ⟨b₂, h₂, hat₂⟩ := ih hat fuel (by simp; omega)
      refine ⟨b₂, ?_, by rw [List.length_append, ← Nat.add_assoc]; exact hat₂⟩
      rw [readLengths, if_neg (by simp; omega), if_neg (by simp; omega), h₁]
      simpa [hn] using h₂
  | @again lengths all word added rest' n h hadded hn hrest ih =>
      have hle := hrest.length_le
      rw [List.length_append, List.length_replicate] at hle
      simp only [List.append_assoc] at hb
      obtain ⟨b₁, h₁, hat₁⟩ := CodeTree.read?_of_subtree? (htree _ _ h) hb
      obtain ⟨b₂, h₂, hat₂⟩ := hat₁.take?
      rw [hadded] at h₂
      obtain ⟨fuel, rfl⟩ : ∃ n, fuel = n + 1 := ⟨fuel - 1, by omega⟩
      obtain ⟨b₃, h₃, hat₃⟩ := ih hat₂ fuel (by simp; omega)
      rw [← List.append_toArray, List.toArray_replicate] at h₃
      refine ⟨b₃, ?_, by simp only [List.length_append, ← Nat.add_assoc]; exact hat₃⟩
      rw [readLengths, if_neg (by simp; omega), if_neg (by simp; omega), h₁]
      simpa [hn, h₂] using h₃
  | @zeros lengths all word added rest' symbol least width hsymbol h hadded hrest ih =>
      have hle := hrest.length_le
      rw [List.length_append, List.length_replicate] at hle
      simp only [List.append_assoc] at hb
      obtain ⟨b₁, h₁, hat₁⟩ := CodeTree.read?_of_subtree? (htree _ _ h) hb
      obtain ⟨b₂, h₂, hat₂⟩ := hat₁.take?
      rw [hadded] at h₂
      have hsome : 0 < least := by
        simp at hsymbol
        omega
      obtain ⟨fuel, rfl⟩ : ∃ n, fuel = n + 1 := ⟨fuel - 1, by omega⟩
      obtain ⟨b₃, h₃, hat₃⟩ := ih hat₂ fuel (by simp; omega)
      rw [← List.append_toArray, List.toArray_replicate] at h₃
      refine ⟨b₃, ?_, by simp only [List.length_append, ← Nat.add_assoc]; exact hat₃⟩
      rw [readLengths, if_neg (by simp; omega), if_neg (by simp; omega), h₁]
      simp only [List.mem_cons, Prod.mk.injEq, List.not_mem_nil, or_false] at hsymbol
      rcases hsymbol with ⟨rfl, rfl, rfl⟩ | ⟨rfl, rfl, rfl⟩
      · simpa [h₂] using h₃
      · simpa [h₂] using h₃

theorem readNumbers_of_flatten {width pos : Nat} {given : List (List Bool)} {rest : List Bool}
    {b : Bits} (hwidth : ∀ bits ∈ given, bits.length = width)
    (hb : b.At pos (given.flatten ++ rest)) :
    ∃ b', readNumbers width given.length b = some (given.map numberOf, b') ∧
      b'.At (pos + given.flatten.length) rest := by
  induction given generalizing b pos with
  | nil => exact ⟨b, rfl, hb⟩
  | cons bits given ih =>
      rw [List.flatten_cons, List.append_assoc] at hb
      obtain ⟨b₁, h₁, hat₁⟩ := hb.take?
      rw [hwidth bits List.mem_cons_self] at h₁
      have hrest : ∀ bits ∈ given, bits.length = width := by
        intro bits hbits
        exact hwidth bits (List.mem_cons_of_mem _ hbits)
      obtain ⟨b₂, h₂, hat₂⟩ := ih hrest hat₁
      refine ⟨b₂, ?_, ?_⟩
      · simp [readNumbers, h₁, h₂]
      · rw [List.flatten_cons, List.length_append, ← Nat.add_assoc]
        exact hat₂

theorem readCodes_of_given {literals distances : List Nat} {bits rest : List Bool} {pos : Nat}
    {b : Bits} (h : GivenCodes literals distances bits) (hb : b.At pos (bits ++ rest)) :
    ∃ first second b', readCodes b = some ((first, second), b') ∧ first.Holds literals ∧
      second.Holds distances ∧ b'.At (pos + bits.length) rest := by
  obtain ⟨hfirst, hsecond, hthird, hliterals, hmost, hdistances, hmost', hgiven, hwidth, hcode,
    hpacked, hl, hd⟩ := h
  simp only [List.append_assoc] at hb
  obtain ⟨b₁, h₁, hat₁⟩ := hb.take?
  obtain ⟨b₂, h₂, hat₂⟩ := hat₁.take?
  obtain ⟨b₃, h₃, hat₃⟩ := hat₂.take?
  obtain ⟨b₄, h₄, hat₄⟩ := readNumbers_of_flatten hwidth hat₃
  obtain ⟨tree, htree, hholds⟩ := CodeTree.ofLengths?_of_isCode hcode
  have hfuel : (literals ++ distances).length - ([] : List Nat).length
      < (literals ++ distances).length + 1 := Nat.lt_succ_self _
  obtain ⟨b₅, h₅, hat₅⟩ := readLengths_of_packed hholds hpacked hfuel hat₄
  obtain ⟨first, hf, hfholds⟩ := CodeTree.ofLengths?_of_isCode hl
  obtain ⟨second, hs, hsholds⟩ := CodeTree.ofLengths?_of_isCode hd
  refine ⟨first, second, b₅, ?_, hfholds, hsholds, ?_⟩
  · rw [hfirst] at h₁
    rw [hsecond] at h₂
    rw [hthird] at h₃
    rw [hgiven] at h₄
    rw [List.length_append, hliterals, hdistances] at h₅
    have hfront : (literals ++ distances).take (numberOf _ + 257) = literals :=
      List.take_left' hliterals
    have hback : (literals ++ distances).drop (numberOf _ + 257) = distances :=
      List.drop_left' hliterals
    unfold packingLengths at htree
    simp only [readCodes, h₁, h₂, h₃, h₄, Option.bind_eq_bind, Option.bind_some]
    rw [if_neg (by omega)]
    simp only [htree, h₅, hfront, hback, hf, hs, Option.bind_some, Option.pure_def]
  · simp only [List.length_append, ← Nat.add_assoc]
    exact hat₅

/-! ## Blocks -/

theorem isCode_fixedLiterals : IsCode fixedLiterals :=
  ⟨by decide +kernel, .inl (by decide +kernel)⟩

theorem isCode_fixedDistances : IsCode fixedDistances :=
  ⟨by decide +kernel, .inl (by decide +kernel)⟩

theorem fixedCodes_eq_some :
    ∃ first second, fixedCodes = some (first, second) ∧ first.Holds fixedLiterals ∧
      second.Holds fixedDistances := by
  obtain ⟨first, hf, hfholds⟩ := CodeTree.ofLengths?_of_isCode isCode_fixedLiterals
  obtain ⟨second, hs, hsholds⟩ := CodeTree.ofLengths?_of_isCode isCode_fixedDistances
  refine ⟨first, second, ?_, hfholds, hsholds⟩
  change ((CodeTree.ofLengths? fixedLiterals).bind fun literals =>
    (CodeTree.ofLengths? fixedDistances).bind fun distances => some (literals, distances)) = _
  rw [hf, hs]
  rfl

theorem readStored_of_aligned {limit pos : Nat} {out bytes : Bytes} {padding rest : List Bool}
    {b : Bits} (hpadding : padding.length < 8) (haligned : (pos + padding.length) % 8 = 0)
    (hlength : bytes.length ≤ blockLimit)
    (hb : b.At pos (padding ++ (bitsOf (framed bytes) ++ rest))) :
    ∃ b', readStored limit out.toArray b = some ((out ++ bytes).toArray, b') ∧
      b'.At (pos + (padding ++ bitsOf (framed bytes)).length) rest := by
  obtain ⟨back, hback, rfl⟩ := hb.bytes_eq hpadding haligned
  unfold blockLimit at hlength
  have hsplit : Bytes.split? 4 b.bytes = some (Bytes.ofNat 2 bytes.length
      ++ Bytes.ofNat 2 (65535 - bytes.length), bytes ++ back) := by
    rw [hback, framed, List.append_assoc _ bytes back]
    exact Bytes.split?_append _ (by simp)
  have hnumber : Bytes.toNat (Bytes.ofNat 2 bytes.length) = bytes.length :=
    Bytes.toNat_ofNat (by omega)
  have hcomplement : Bytes.toNat (Bytes.ofNat 2 (65535 - bytes.length)) = 65535 - bytes.length :=
    Bytes.toNat_ofNat (by omega)
  refine ⟨.ofBytes back, ?_, Bits.at_ofBytes back ?_⟩
  · simp only [readStored, hsplit, Option.bind_eq_bind, Option.bind_some,
      List.take_left' (Bytes.length_ofNat 2 _), List.drop_left' (Bytes.length_ofNat 2 _), hnumber,
      hcomplement, Bytes.split?_append back rfl]
    simp
  · rw [List.length_append, length_bitsOf]
    omega

theorem readBlock_of_block (limit : Nat) {pos : Nat} {out next : Bytes} {bits rest : List Bool}
    {b : Bits} (h : Block pos out bits next) (hb : b.At pos (bits ++ rest)) :
    ReadsTo limit next (pos + bits.length) rest (readBlock limit out.toArray b) := by
  cases h with
  | stored hpadding haligned hlength =>
      rw [List.append_assoc, List.append_assoc] at hb
      obtain ⟨b₁, h₁, hat₁⟩ := hb.take?
      obtain ⟨b₂, h₂, hat₂⟩ := readStored_of_aligned hpadding haligned hlength hat₁
      simp only [List.length_cons, List.length_nil, Nat.zero_add, Nat.reduceAdd] at h₁
      rw [List.length_append, ← Nat.add_assoc, readBlock]
      simp only [h₁, Option.bind_eq_bind, Option.bind_some]
      change ReadsTo limit _ _ rest (readStored limit out.toArray b₁)
      rw [h₂]
      exact .all hat₂
  | fixed h =>
      rw [List.append_assoc] at hb
      obtain ⟨b₁, h₁, hat₁⟩ := hb.take?
      obtain ⟨first, second, hcodes, hf, hs⟩ := fixedCodes_eq_some
      have hread := readSymbols_of_symbols hf hs limit h hat₁.lt_size hat₁
      simp only [List.length_cons, List.length_nil, Nat.zero_add, Nat.reduceAdd] at h₁
      rw [List.length_append, ← Nat.add_assoc]
      simp only [readBlock, h₁, Option.bind_eq_bind, Option.bind_some]
      change ReadsTo limit next _ rest (fixedCodes.bind fun codes =>
        readSymbols codes.1 codes.2 limit (b₁.size + 1) out.toArray b₁)
      rw [hcodes]
      exact hread
  | coded hcodes h =>
      rw [List.append_assoc, List.append_assoc] at hb
      obtain ⟨b₁, h₁, hat₁⟩ := hb.take?
      obtain ⟨first, second, b₂, h₂, hf, hs, hat₂⟩ := readCodes_of_given hcodes hat₁
      have hread := readSymbols_of_symbols hf hs limit h hat₂.lt_size hat₂
      simp only [List.length_cons, List.length_nil, Nat.zero_add, Nat.reduceAdd] at h₁
      rw [List.length_append, List.length_append, ← Nat.add_assoc, ← Nat.add_assoc]
      simp only [readBlock, h₁, Option.bind_eq_bind, Option.bind_some]
      change ReadsTo limit next _ rest ((readCodes b₁).bind fun read =>
        readSymbols read.1.1 read.1.2 limit (read.2.size + 1) out.toArray read.2)
      rw [h₂]
      exact hread

theorem Block.keeps {pos : Nat} {out next : Bytes} {bits : List Bool}
    (h : Block pos out bits next) : out <+: next := by
  cases h with
  | stored => exact List.prefix_append _ _
  | fixed h => exact h.keeps
  | coded _ h => exact h.keeps

theorem Blocks.keeps {pos : Nat} {out last : Bytes} {bits : List Bool}
    (h : Blocks pos out bits last) : out <+: last := by
  induction h with
  | last h => exact h.keeps
  | more h hrest ih => exact h.keeps.trans ih

theorem readBlocks_of_blocks (limit : Nat) {fuel pos : Nat} {out last : Bytes}
    {bits rest : List Bool} {b : Bits} (h : Blocks pos out bits last) (hfuel : bits.length < fuel)
    (hb : b.At pos (bits ++ rest)) :
    ReadsTo limit last (pos + bits.length) rest (readBlocks limit fuel out.toArray b) := by
  obtain ⟨fuel, rfl⟩ : ∃ n, fuel = n + 1 := ⟨fuel - 1, by omega⟩
  induction h generalizing fuel b with
  | last h =>
      obtain ⟨b₁, h₁, hat₁⟩ := hb.next?
      have hread := readBlock_of_block limit h hat₁
      rw [readBlocks, h₁, List.length_cons, Nat.add_comm _ 1, ← Nat.add_assoc]
      dsimp only
      generalize readBlock limit _ b₁ = r at hread ⊢
      cases hread with
      | all hat => exact .all hat
      | part hfull hpart => exact .part hfull hpart
  | @more pos out next last bits rest' h hrest ih =>
      rw [List.cons_append, List.append_assoc] at hb
      rw [List.length_cons, List.length_append] at hfuel ⊢
      obtain ⟨b₁, h₁, hat₁⟩ := hb.next?
      have hread := readBlock_of_block limit h hat₁
      rw [readBlocks, h₁]
      dsimp only
      generalize readBlock limit out.toArray b₁ = r at hread ⊢
      cases hread with
      | @part out' b₂ hfull hpart =>
          have hstops : false = true ∨ limit ≤ out'.toArray.size := .inr (by simpa using hfull)
          simp only [if_pos hstops]
          exact .part hfull (hpart.trans hrest.keeps)
      | @all b₂ hat₂ =>
          by_cases hfull : limit ≤ next.length
          · have hstops : false = true ∨ limit ≤ next.toArray.size := .inr (by simpa using hfull)
            simp only [if_pos hstops]
            exact .part hfull hrest.keeps
          · have hgoes : ¬ (false = true ∨ limit ≤ next.toArray.size) := by simpa using hfull
            obtain ⟨fuel, rfl⟩ : ∃ n, fuel = n + 1 := ⟨fuel - 1, by omega⟩
            simp only [if_neg hgoes]
            rw [Nat.add_comm _ 1, ← Nat.add_assoc, ← Nat.add_assoc]
            exact ih hat₂ fuel (by omega)

/-! ## Streams -/

/-- A stream gives all bytes that it stands for, or at least as many of them as the limit says. -/
theorem read?_of_isStream {bytes stream : Bytes} (h : IsStream bytes stream) (limit : Nat) :
    ∃ out, read? limit stream = some out ∧ out <+: bytes ∧ (out = bytes ∨ limit ≤ out.length) := by
  obtain ⟨hheader, hdata, hpadding, hblocks⟩ := h
  rename_i method flags data bits padding
  have hstart : (Bits.ofBytes (data ++ trailer bytes)).At 0
      (bits ++ (padding ++ (bitsOf (trailer bytes) ++ []))) := by
    have h : (Bits.ofBytes (data ++ trailer bytes)).At 0 (bitsOf (data ++ trailer bytes)) :=
      Bits.at_ofBytes _ rfl
    rw [bitsOf_append, hdata, List.append_assoc] at h
    rw [List.append_nil]
    exact h
  have hread : ReadsTo limit bytes (0 + bits.length) (padding ++ (bitsOf (trailer bytes) ++ []))
      (inflate limit (data ++ trailer bytes)) :=
    readBlocks_of_blocks limit hblocks hstart.lt_size hstart
  rw [read?, if_pos hheader]
  generalize inflate limit (data ++ trailer bytes) = r at hread ⊢
  cases hread with
  | @part out b hfull hpart => exact ⟨out, by simp only [if_pos hfull], hpart, .inr hfull⟩
  | @all b hat =>
      have haligned : (0 + bits.length + padding.length) % 8 = 0 := by
        have hlength := congrArg List.length hdata
        rw [length_bitsOf, List.length_append] at hlength
        omega
      obtain ⟨back, hback, -⟩ := hat.bytes_eq hpadding haligned
      have htrailer : b.bytes.take 4 = trailer bytes := by
        rw [hback]
        exact List.take_left' (by simp [trailer])
      exact ⟨bytes, by simp only [htrailer, if_true, ite_self], List.prefix_rfl, .inl rfl⟩

end Gsc.Deflate

namespace Gsc

open Deflate

variable {bytes stream : Bytes}

theorem decompress_eq_of_isStream (h : IsStream bytes stream) {length : UInt64}
    (hroom : length.toNat ≤ capacityLimit) :
    ∃ out, out <+: bytes ∧ (out = bytes ∨ length.toNat + 1 ≤ out.length) ∧
      decompress stream length =
        if out.length = length.toNat then .ok out
        else
          .error (.error (.lengthMismatch length.toNat (min out.length (length.toNat + 1)))) := by
  obtain ⟨out, hread, hpart, hout⟩ := read?_of_isStream h (length.toNat + 1)
  have hsome : ¬ (stream.isEmpty = true ∧ length = 0) := by
    obtain ⟨⟩ := h
    simp
  have hsum : length.toNat + 1 < UInt64.size :=
    Nat.lt_of_le_of_lt (Nat.succ_le_succ hroom) (by decide)
  refine ⟨out, hpart, hout, ?_⟩
  rw [decompress, if_neg hsome, if_neg (Nat.not_lt.2 hroom), checkedSum_of_lt hsum, ok_bind, hread]

/-- A stream gives back the bytes that it stands for. -/
theorem decompress_of_isStream (h : IsStream bytes stream) (hroom : bytes.length ≤ capacityLimit) :
    decompress stream bytes.length.toUInt64 = .ok bytes := by
  have hword : bytes.length.toUInt64.toNat = bytes.length := by
    rw [Nat.toUInt64_eq, UInt64.toNat_ofNat_of_lt']
    exact Nat.lt_of_le_of_lt hroom (by decide)
  rw [← hword] at hroom
  obtain ⟨out, hpart, hout, heq⟩ := decompress_eq_of_isStream h hroom
  have hle := hpart.length_le
  have hall : out = bytes := hout.resolve_right (by omega)
  rw [heq, hall, if_pos hword.symm]

/-- A stream does not give another number of bytes. It is read one byte past that number at most,
and not at all where there is no room for so many. -/
theorem decompress_of_isStream_of_ne (h : IsStream bytes stream) {length : UInt64}
    (hne : length.toNat ≠ bytes.length) :
    decompress stream length =
      if length.toNat ≤ capacityLimit then
        .error (.error (.lengthMismatch length.toNat (min bytes.length (length.toNat + 1))))
      else .error (.panic "capacity overflow") := by
  by_cases hroom : length.toNat ≤ capacityLimit
  · obtain ⟨out, hpart, hout, heq⟩ := decompress_eq_of_isStream h hroom
    have hle := hpart.length_le
    have hother : out.length ≠ length.toNat := by
      rcases hout with rfl | hfull
      · exact hne.symm
      · omega
    have hseen : min out.length (length.toNat + 1) = min bytes.length (length.toNat + 1) := by
      rcases hout with rfl | hfull
      · rfl
      · omega
    rw [heq, if_neg hother, hseen, if_pos hroom]
  · have hsome : ¬ (stream.isEmpty = true ∧ length = 0) := by
      rintro ⟨-, rfl⟩
      exact hroom (Nat.zero_le _)
    rw [decompress, if_neg hsome, if_pos (Nat.lt_of_not_le hroom), if_neg hroom]

end Gsc
