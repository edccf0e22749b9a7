import Gsc.Proofs.Deflate.Stored
import Gsc.Proofs.Except

/-! # Compressed stack regions

A region is given back by its compressed form when its own length is asked for, whichever encoder
made the stream. Any other length is refused, with the number of bytes that were read for it.
-/

namespace Gsc

open Deflate

theorem decompress_compressWith (e : Encoder) {bytes : Bytes}
    (hroom : bytes.length ≤ capacityLimit) :
    decompress (compressWith e.encode bytes) bytes.length.toUInt64 = .ok bytes := by
  cases bytes with
  | nil => rfl
  | cons b bytes => exact decompress_of_isStream (e.isStream (b :: bytes)) hroom

theorem decompress_compressWith_of_ne (e : Encoder) {bytes : Bytes} {length : UInt64}
    (hsome : bytes ≠ []) (hne : length.toNat ≠ bytes.length) :
    decompress (compressWith e.encode bytes) length =
      if length.toNat ≤ capacityLimit then
        .error (.error (.lengthMismatch length.toNat (min bytes.length (length.toNat + 1))))
      else .error (.panic "capacity overflow") := by
  cases bytes with
  | nil => exact absurd rfl hsome
  | cons b bytes => exact decompress_of_isStream_of_ne (e.isStream (b :: bytes)) hne

/-- A region and its length come back from the compressed form. A wrong length is told from the
right one, and what was read then is the whole region or one byte more than asked for. A length that
no buffer can have stops the program. -/
theorem CompressedStack.decompress_ofStack (e : Encoder) :
    (∀ stack, (ofStack e.encode stack).length = stack.length ∧
      (stack.length ≤ capacityLimit →
        decompress (ofStack e.encode stack).bytes stack.length.toUInt64 = .ok stack)) ∧
    ∀ (stack : Bytes) (length : UInt64), stack ≠ [] → length.toNat ≠ stack.length →
      decompress (ofStack e.encode stack).bytes length =
        if length.toNat ≤ capacityLimit then
          .error (.error (.lengthMismatch length.toNat (min stack.length (length.toNat + 1))))
        else .error (.panic "capacity overflow") :=
  ⟨fun _ => ⟨rfl, decompress_compressWith e⟩,
    fun _ _ hsome hne => decompress_compressWith_of_ne e hsome hne⟩

namespace Deflate

/-- An encoder that has a stream of its own for some bytes and keeps all others as they are. -/
def Encoder.storedBut {bytes stream : Bytes} (h : IsStream bytes stream) : Encoder where
  encode other := if other = bytes then stream else storedStream other
  isStream other := by
    by_cases hother : other = bytes
    · rw [if_pos hother, hother]
      exact h
    · rw [if_neg hother]
      exact isStream_storedStream other

/-- Four times `abc`. The first four bytes are given, and the others are a copy from three bytes
before, which reads what it writes. -/
def rhyme : Bytes := [97, 98, 99, 97, 98, 99, 97, 98, 99, 97, 98, 99]

def rhymeStream : Bytes :=
  [0x78, 0xda, 0x4b, 0x4c, 0x4a, 0x4e, 0x84, 0x21, 0, 0x1d, 0xe0, 0x04, 0x99]

theorem copied_rhyme : Copied 3 8 [97, 98, 99, 97] rhyme where
  positive := by decide
  inside := by decide
  keeps := by decide
  length_eq := by decide
  same := by
    have h : ∀ i, i < rhyme.length → 4 ≤ i → rhyme[i]? = rhyme[i - 3]? := by decide
    exact fun i hlow hhigh => h i hhigh hlow

theorem isStream_rhymeStream : IsStream rhyme rhymeStream := by
  have hletter : ∀ b ∈ [97, 98, 99],
      codeWord? fixedLiterals b = some (wordBits 8 (48 + b)) := by decide +kernel
  have hcopy : codeWord? fixedLiterals (257 + 5) = some (wordBits 7 6) := by decide +kernel
  have hback : codeWord? fixedDistances 2 = some (wordBits 5 2) := by decide +kernel
  have hstop : codeWord? fixedLiterals 256 = some (wordBits 7 0) := by decide +kernel
  have hsymbols : Symbols fixedLiterals fixedDistances [] (wordBits 8 145 ++ (wordBits 8 146
      ++ (wordBits 8 147 ++ (wordBits 8 145
        ++ (wordBits 7 6 ++ ([] ++ (wordBits 5 2 ++ ([] ++ wordBits 7 0)))))))) rhyme :=
    .literal 97 (hletter 97 (by decide)) <| .literal 98 (hletter 98 (by decide)) <|
      .literal 99 (hletter 99 (by decide)) <| .literal 97 (hletter 97 (by decide)) <|
        .copy hcopy (.intro rfl) hback (.intro rfl) copied_rhyme (.stop hstop)
  have hdata : bitsOf [0x4b, 0x4c, 0x4a, 0x4e, 0x84, 0x21, 0]
      = true :: ([true, false] ++ (wordBits 8 145 ++ (wordBits 8 146 ++ (wordBits 8 147
        ++ (wordBits 8 145 ++ (wordBits 7 6 ++ ([] ++ (wordBits 5 2 ++ ([] ++ wordBits 7 0)))))))))
          ++ [false, false] := by decide
  have hheader : isHeader (0x78 : UInt8).toNat (0xda : UInt8).toNat = true := by decide
  exact .intro hheader hdata (by decide) (.last (.fixed hsymbols))

end Deflate

theorem CompressedStack.decompress_rhyme :
    let stack := ofStack (Encoder.storedBut isStream_rhymeStream).encode rhyme
    stack = ⟨rhymeStream, 12⟩ ∧ decompress stack.bytes 12 = .ok rhyme ∧
      decompress stack.bytes 5 = .error (.error (.lengthMismatch 5 6)) ∧
      decompress stack.bytes 20 = .error (.error (.lengthMismatch 20 12)) ∧
      decompress stack.bytes 9223372036854775808 = .error (.panic "capacity overflow") := by
  have h := decompress_ofStack (Encoder.storedBut isStream_rhymeStream)
  exact ⟨by decide, (h.1 rhyme).2 (by decide), h.2 rhyme 5 (by decide) (by decide),
    h.2 rhyme 20 (by decide) (by decide),
    h.2 rhyme 9223372036854775808 (by decide) (by decide)⟩

/-- The stream of `a`. -/
def oneLetterStream : Bytes := [0x78, 0xda, 0x4b, 0x04, 0, 0, 0x62, 0, 0x62]

/-- A letter asked for with all the length there is: no wrong length is reported, the program
stops. -/
theorem CompressedStack.decompress_oneLetter :
    decompress oneLetterStream 1 = .ok [97] ∧
      decompress oneLetterStream 18446744073709551615 = .error (.panic "capacity overflow") ∧
      decompress (ofStack Encoder.stored.encode [97]).bytes 18446744073709551615
        = .error (.panic "capacity overflow") := by
  refine ⟨eq_ok_of_toOption ?_, eq_error_of_errorOf? ?_, eq_error_of_errorOf? ?_⟩
  all_goals decide +kernel

end Gsc
