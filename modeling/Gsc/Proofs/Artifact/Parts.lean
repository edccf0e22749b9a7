import Gsc.Artifact.Basic
import Gsc.Proofs.Deflate.Compression

/-! # Artifacts and their parts

An artifact is put together from parts within the limits, and taken apart again by its description.
The description is made of machine words: where the lengths in it add up to more than a word holds,
the program is stopped. Any other description is refused or cuts the buffer inside of it.
-/

namespace Gsc

theorem length_of_decompress {stream bytes : Bytes} {length : UInt64}
    (h : decompress stream length = .ok bytes) : bytes.length = length.toNat := by
  unfold decompress at h
  split at h
  · rename_i hempty
    cases h
    rw [hempty.2]
    rfl
  · split at h
    · cases h
    · obtain ⟨limit, -, h⟩ := bind_eq_ok.1 h
      split at h
      · cases h
      · split at h
        · rename_i hlength
          cases h
          exact hlength
        · cases h

namespace Artifact

theorem checkField_eq_ok {field : PackField} {length : Nat} :
    checkField field length = .ok () ↔ length ≤ fieldLimit := by
  unfold checkField
  by_cases h : length ≤ fieldLimit
  · simp [h]
  · simp [h]

theorem checkField_eq_error {field : PackField} {length : Nat} (h : ¬ length ≤ fieldLimit) :
    checkField field length = .error (.tooLarge field length) := if_neg h

theorem pack_eq_ok {name : String} {bytecode compressed : Bytes} {length : Nat}
    {functions : List FunctionEntry} {a : Artifact}
    (h : pack name bytecode compressed length functions = .ok a) :
    a = ⟨name, length, bytecode, compressed, functions⟩ ∧ length ≤ fieldLimit ∧
      bytecode.length + compressed.length ≤ fieldLimit := by
  obtain ⟨_, h₁, h⟩ := bind_eq_ok.1 h
  obtain ⟨_, -, h⟩ := bind_eq_ok.1 h
  obtain ⟨_, -, h⟩ := bind_eq_ok.1 h
  obtain ⟨_, h₄, h⟩ := bind_eq_ok.1 h
  cases h
  exact ⟨rfl, checkField_eq_ok.1 h₁, checkField_eq_ok.1 h₄⟩

theorem toNat_toUInt64 {n : Nat} (h : n ≤ fieldLimit) : n.toUInt64.toNat = n := by
  unfold fieldLimit at h
  rw [Nat.toUInt64_eq, UInt64.toNat_ofNat_of_lt']
  exact Nat.lt_of_le_of_lt h (by decide)

end Artifact

/-! ## Descriptions -/

/-- The layout that is checked: the lengths add up to that of the buffer, and the stack region
begins behind the bytecode. -/
structure Metadata.Describes (m : Metadata) (buffer : Bytes) : Prop where
  total : buffer.length = m.bytecodeLength.toNat + m.compressedLength.toNat
  front : m.bytecodeOffset = 0
  behind : m.stackOffset = m.bytecodeLength

theorem Metadata.not_describes_iff {m : Metadata} {buffer : Bytes} :
    ¬ m.Describes buffer ↔
      buffer.length ≠ m.bytecodeLength.toNat + m.compressedLength.toNat ∨ m.bytecodeOffset ≠ 0 ∨
        m.stackOffset ≠ m.bytecodeLength := by
  constructor
  · intro h
    by_cases htotal : buffer.length = m.bytecodeLength.toNat + m.compressedLength.toNat
    · by_cases hfront : m.bytecodeOffset = 0
      · exact .inr (.inr fun hbehind => h ⟨htotal, hfront, hbehind⟩)
      · exact .inr (.inl hfront)
    · exact .inl htotal
  · rintro (h | h | h) hdescribes
    · exact h hdescribes.total
    · exact h hdescribes.front
    · exact h hdescribes.behind

structure Metadata.Admits (m : Metadata) (buffer : Bytes) : Prop extends m.Describes buffer where
  length_le : m.length.toNat ≤ Artifact.fieldLimit
  buffer_le : buffer.length ≤ Artifact.fieldLimit

def Metadata.cut (m : Metadata) (buffer : Bytes) : Artifact :=
  ⟨m.name, m.length.toNat, buffer.take m.bytecodeLength.toNat, buffer.drop m.bytecodeLength.toNat,
    m.functions⟩

namespace Artifact

variable {m : Metadata} {buffer : Bytes} {a : Artifact}

/-- The stack region of an artifact within the limits is read without stopping the program. -/
theorem stack_ne_panic (h : a.length ≤ fieldLimit) (message : String) :
    a.stack ≠ .error (.panic message) := by
  have hroom : ¬ capacityLimit < a.length.toUInt64.toNat := by
    rw [toNat_toUInt64 h]
    exact Nat.not_lt.2 (Nat.le_trans h (by decide))
  have hsum : a.length.toUInt64.toNat + 1 < UInt64.size := by
    rw [toNat_toUInt64 h]
    exact Nat.lt_of_le_of_lt (Nat.succ_le_succ h) (by decide)
  unfold stack decompress
  rw [if_neg hroom, checkedSum_of_lt hsum, ok_bind]
  intro hpanic
  split at hpanic
  · cases hpanic
  · split at hpanic
    · cases hpanic
    · split at hpanic
      · cases hpanic
      · cases hpanic

/-- Lengths that are no machine word together stop the program. -/
theorem ofParts_of_overflow (h : UInt64.size ≤ m.bytecodeLength.toNat + m.compressedLength.toNat) :
    ofParts m buffer = .error (.panic "attempt to add with overflow") := by
  rw [ofParts, checkedSum_of_le h]
  rfl

/-- A buffer that its description admits is cut behind the bytecode. -/
theorem ofParts_of_admits (h : m.Admits buffer) :
    ofParts m buffer = match (m.cut buffer).stack with
      | .ok _ => .ok (m.cut buffer)
      | .error fault => .error (fault.map .decompress) := by
  have htotal := h.total
  have hsmall := h.buffer_le
  have hsum : m.bytecodeLength.toNat + m.compressedLength.toNat < UInt64.size := by
    rw [← htotal]
    exact Nat.lt_of_le_of_lt hsmall (by decide)
  have hlayout := fun hmismatch => Metadata.not_describes_iff.2 hmismatch h.toDescribes
  have hlength : checkField .stack m.length.toNat = .ok () := checkField_eq_ok.2 h.length_le
  have hbuffer : checkField .buffer buffer.length = .ok () := checkField_eq_ok.2 hsmall
  have hslice : sliceFrom buffer m.bytecodeLength.toNat
      = .ok (buffer.drop m.bytecodeLength.toNat) := if_pos (by omega)
  have hcut : (⟨m.name, m.length.toNat, buffer.take m.bytecodeLength.toNat,
      buffer.drop m.bytecodeLength.toNat, m.functions⟩ : Artifact) = m.cut buffer := rfl
  rw [ofParts, checkedSum_of_lt hsum]
  simp only [bind, Except.bind, if_neg hlayout, hlength, hbuffer, hslice, mapError_ok, hcut,
    pure, Except.pure]
  cases (m.cut buffer).stack with
  | ok stack => rfl
  | error fault => rfl

/-- A buffer that its description does not admit is refused for its layout or for its size. -/
theorem ofParts_of_not_admits
    (hsum : m.bytecodeLength.toNat + m.compressedLength.toNat < UInt64.size)
    (h : ¬ m.Admits buffer) :
    (∃ expected actual, ofParts m buffer = .error (.error (.layoutMismatch expected actual))) ∨
      ∃ field length, ofParts m buffer = .error (.error (.tooLarge field length)) := by
  rw [ofParts, checkedSum_of_lt hsum]
  by_cases hlayout : m.Describes buffer
  · have hmatch := fun hmismatch => Metadata.not_describes_iff.2 hmismatch hlayout
    refine .inr ?_
    by_cases hlength : m.length.toNat ≤ fieldLimit
    · have hbuffer : ¬ buffer.length ≤ fieldLimit := fun hle => h ⟨hlayout, hlength, hle⟩
      have hfits : checkField .stack m.length.toNat = .ok () := checkField_eq_ok.2 hlength
      simp only [bind, Except.bind, if_neg hmatch, hfits, checkField_eq_error hbuffer]
      exact ⟨.buffer, buffer.length, rfl⟩
    · simp only [bind, Except.bind, if_neg hmatch, checkField_eq_error hlength]
      exact ⟨.stack, m.length.toNat, rfl⟩
  · simp only [bind, Except.bind, if_pos (Metadata.not_describes_iff.1 hlayout)]
    exact .inl ⟨_, _, rfl⟩

theorem ofParts_eq_ok (h : ofParts m buffer = .ok a) :
    m.Admits buffer ∧ a = m.cut buffer ∧ ∃ stack, a.stack = .ok stack := by
  by_cases hsum : m.bytecodeLength.toNat + m.compressedLength.toNat < UInt64.size
  · by_cases hadmits : m.Admits buffer
    · refine ⟨hadmits, ?_⟩
      rw [ofParts_of_admits hadmits] at h
      split at h
      · rename_i stack hstack
        cases h
        exact ⟨rfl, stack, hstack⟩
      · cases h
    · obtain ⟨_, _, herror⟩ | ⟨_, _, herror⟩ := ofParts_of_not_admits hsum hadmits
      · cases herror.symm.trans h
      · cases herror.symm.trans h
  · cases (ofParts_of_overflow (Nat.not_lt.1 hsum)).symm.trans h

/-- The program is stopped exactly if the lengths of a description are no machine word together. -/
theorem ofParts_eq_panic_iff :
    (∃ message, ofParts m buffer = .error (.panic message)) ↔
      UInt64.size ≤ m.bytecodeLength.toNat + m.compressedLength.toNat := by
  constructor
  · rintro ⟨message, h⟩
    refine Nat.le_of_not_lt fun hsum => ?_
    by_cases hadmits : m.Admits buffer
    · rw [ofParts_of_admits hadmits] at h
      split at h
      · cases h
      · rename_i fault hfault
        cases fault with
        | error e => cases h
        | panic reason => exact stack_ne_panic hadmits.length_le reason hfault
    · obtain ⟨_, _, herror⟩ | ⟨_, _, herror⟩ := ofParts_of_not_admits hsum hadmits
      · cases herror.symm.trans h
      · cases herror.symm.trans h
  · exact fun hsum => ⟨_, ofParts_of_overflow hsum⟩

/-- A buffer is cut into parts of the lengths that its description gives. -/
theorem lengths_of_ofParts (h : ofParts m buffer = .ok a) :
    a.buffer = buffer ∧ a.bytecode.length = m.bytecodeLength.toNat ∧
      a.compressed.length = m.compressedLength.toNat := by
  obtain ⟨hadmits, rfl, -⟩ := ofParts_eq_ok h
  have htotal := hadmits.total
  refine ⟨List.take_append_drop _ _, List.length_take_of_le (by omega), ?_⟩
  rw [Metadata.cut, List.length_drop]
  omega

/-- Taking a buffer apart stops the program exactly if the lengths of the description are no machine
word together. In every other case there is an error or an artifact, and an artifact that comes out
has parts of the lengths described, which make up its buffer within the limit. -/
theorem ofParts_within_buffer (m : Metadata) (buffer : Bytes) :
    ((∃ message, ofParts m buffer = .error (.panic message)) ↔
      UInt64.size ≤ m.bytecodeLength.toNat + m.compressedLength.toNat) ∧
    ∀ a, ofParts m buffer = .ok a →
      a.bytecode.length = m.bytecodeLength.toNat ∧
        a.compressed.length = m.compressedLength.toNat ∧
        a.bytecode.length + a.compressed.length = a.buffer.length ∧
        a.buffer.length ≤ 2147483647 ∧ a.bytecode.length ≤ a.buffer.length := by
  refine ⟨ofParts_eq_panic_iff, fun a h => ?_⟩
  obtain ⟨hadmits, -⟩ := ofParts_eq_ok h
  obtain ⟨hbuffer, hfront, hback⟩ := lengths_of_ofParts h
  have hwhole : a.buffer.length = a.bytecode.length + a.compressed.length := List.length_append
  have hlimit : a.buffer.length ≤ 2147483647 := hbuffer ▸ hadmits.buffer_le
  exact ⟨hfront, hback, hwhole.symm, hlimit, by omega⟩

/-- Lengths that add up to one more than a machine word holds. -/
def overlongLengths : Metadata :=
  ⟨"wrapped", 0, 18446744073709551615, 1, 0, 18446744073709551615, []⟩

/-- The description of an empty buffer is not refused: it stops the program. -/
theorem ofParts_overlongLengths :
    ofParts overlongLengths [] = .error (.panic "attempt to add with overflow") ∧
      ofParts { overlongLengths with length := 2147483648 } []
        = .error (.panic "attempt to add with overflow") := by
  refine ⟨eq_error_of_errorOf? ?_, eq_error_of_errorOf? ?_⟩
  · decide
  · decide

/-! ## Both ways -/

theorem admits_metadata (hlength : a.length ≤ fieldLimit)
    (hbuffer : a.bytecode.length + a.compressed.length ≤ fieldLimit) :
    a.metadata.Admits a.buffer := by
  have hfront : a.metadata.bytecodeLength.toNat = a.bytecode.length := toNat_toUInt64 (by omega)
  have hback : a.metadata.compressedLength.toNat = a.compressed.length := toNat_toUInt64 (by omega)
  have hword : a.metadata.length.toNat = a.length := toNat_toUInt64 hlength
  have hwhole : a.buffer.length = a.bytecode.length + a.compressed.length := List.length_append
  exact ⟨⟨by rw [hfront, hback, hwhole], rfl, rfl⟩, by omega, by omega⟩

theorem cut_metadata (hlength : a.length ≤ fieldLimit) (hfront : a.bytecode.length ≤ fieldLimit) :
    a.metadata.cut a.buffer = a := by
  have hword : a.metadata.length.toNat = a.length := toNat_toUInt64 hlength
  have hstart : a.metadata.bytecodeLength.toNat = a.bytecode.length := toNat_toUInt64 hfront
  rw [Metadata.cut, hword, hstart, buffer, List.take_left, List.drop_left]
  rfl

/-- The parts of an artifact within the limits, whose stack region inflates, make it again. -/
theorem ofParts_metadata {stack : Bytes} (hlength : a.length ≤ fieldLimit)
    (hbuffer : a.bytecode.length + a.compressed.length ≤ fieldLimit)
    (hstack : a.stack = .ok stack) : ofParts a.metadata a.buffer = .ok a := by
  rw [ofParts_of_admits (admits_metadata hlength hbuffer), cut_metadata hlength (by omega), hstack]

theorem toUInt64_eq {n : Nat} {word : UInt64} (h : n = word.toNat) : n.toUInt64 = word := by
  rw [h, Nat.toUInt64_eq, UInt64.ofNat_toNat]

/-- The parts of a buffer have the description by which they were found. -/
theorem metadata_of_ofParts (h : ofParts m buffer = .ok a) : a.metadata = m := by
  obtain ⟨hadmits, hcut, -⟩ := ofParts_eq_ok h
  obtain ⟨-, hfront, hback⟩ := lengths_of_ofParts h
  have hname : a.name = m.name := by rw [hcut]; rfl
  have hlength : a.length = m.length.toNat := by rw [hcut]; rfl
  have hfunctions : a.functions = m.functions := by rw [hcut]; rfl
  have hstart : a.bytecodeOffset.toUInt64 = m.bytecodeOffset := hadmits.front.symm
  have hbehind : a.stackOffset.toUInt64 = m.stackOffset :=
    (toUInt64_eq hfront).trans hadmits.behind.symm
  rw [metadata, hname, toUInt64_eq hlength, toUInt64_eq hfront, toUInt64_eq hback, hstart, hbehind,
    hfunctions]

/-- A view that shows an artifact as it is: its numbers are the lengths of the parts, and cut the
buffer where the parts meet. -/
structure View.Shows (v : View) (a : Artifact) : Prop where
  name : v.name = a.name
  length : v.length.toInt = a.length
  bytecodeLength : v.bytecodeLength.toInt = a.bytecode.length
  compressedLength : v.compressedLength.toInt = a.compressed.length
  buffer : v.buffer = a.buffer
  bytecode : v.bytecode = a.bytecode
  compressed : v.compressed = a.compressed

theorem toInt_ofNat {n : Nat} (h : n ≤ fieldLimit) : (Int32.ofNat n).toInt = n :=
  Int32.toInt_ofNat_of_lt (Nat.lt_of_le_of_lt h (by decide))

theorem view_shows (hlength : a.length ≤ fieldLimit)
    (hbuffer : a.bytecode.length + a.compressed.length ≤ fieldLimit) : a.view.Shows a := by
  have hfront : a.view.bytecodeLength.toInt = a.bytecode.length := toInt_ofNat (by omega)
  constructor
  case name => rfl
  case length => exact toInt_ofNat hlength
  case bytecodeLength => exact hfront
  case compressedLength => exact toInt_ofNat (by omega)
  case buffer => rfl
  case bytecode =>
    rw [View.bytecode, hfront, Int.toNat_natCast]
    exact List.take_left
  case compressed =>
    rw [View.compressed, hfront, Int.toNat_natCast]
    exact List.drop_left

/-- Packing and taking apart are inverse: an artifact that was packed is made again by its
description and its buffer, and an artifact that was taken out of a buffer has the buffer and the
description it was found by. -/
theorem pack_ofParts_inverse (e : Deflate.Encoder) :
    (∀ name bytecode stack functions a,
      pack name bytecode (compressWith e.encode stack) stack.length functions = .ok a →
        ofParts a.metadata a.buffer = .ok a ∧ a.bytecode = bytecode ∧ a.stack = .ok stack ∧
          a.view.Shows a) ∧
    ∀ m buffer a, ofParts m buffer = .ok a →
      a.metadata = m ∧ a.buffer = buffer ∧
        ∃ stack, a.stack = .ok stack ∧ stack.length = m.length.toNat := by
  constructor
  · intro name bytecode stack functions a h
    obtain ⟨rfl, hlength, hbuffer⟩ := pack_eq_ok h
    have hstack := decompress_compressWith e (Nat.le_trans hlength (by decide))
    exact ⟨ofParts_metadata hlength hbuffer hstack, rfl, hstack, view_shows hlength hbuffer⟩
  · intro m buffer a h
    obtain ⟨hadmits, rfl, stack, hstack⟩ := ofParts_eq_ok h
    have hlength : stack.length = m.length.toNat :=
      (length_of_decompress hstack).trans (toNat_toUInt64 hadmits.length_le)
    exact ⟨metadata_of_ofParts h, (lengths_of_ofParts h).1, stack, hstack, hlength⟩

end Artifact

namespace Deflate

/-- Four zeros in a block with the codes that need not be given. -/
theorem isStream_fourZeros :
    IsStream [0, 0, 0, 0] [0x78, 0xda, 0x63, 0x60, 0x60, 0x60, 0, 0, 0, 4, 0, 1] := by
  have hzero : codeWord? fixedLiterals (0 : UInt8).toNat = some (wordBits 8 48) := by
    decide +kernel
  have hstop : codeWord? fixedLiterals 256 = some (wordBits 7 0) := by decide +kernel
  have hsymbols : Symbols fixedLiterals fixedDistances [] (wordBits 8 48
      ++ (wordBits 8 48 ++ (wordBits 8 48 ++ (wordBits 8 48 ++ wordBits 7 0)))) [0, 0, 0, 0] :=
    .literal 0 hzero (.literal 0 hzero (.literal 0 hzero (.literal 0 hzero (.stop hstop))))
  have hdata : bitsOf [0x63, 0x60, 0x60, 0x60, 0, 0]
      = true :: ([true, false] ++ (wordBits 8 48
        ++ (wordBits 8 48 ++ (wordBits 8 48 ++ (wordBits 8 48 ++ wordBits 7 0)))))
          ++ List.replicate 6 false := by decide
  have hheader : isHeader (0x78 : UInt8).toNat (0xda : UInt8).toNat = true := by decide
  exact .intro hheader hdata (by decide) (.last (.fixed hsymbols))

def Encoder.zeros : Encoder := .storedBut isStream_fourZeros

end Deflate

namespace Artifact

open Deflate (Encoder)

def zerosArtifact : Artifact where
  name := "maps/mp/b"
  length := 4
  bytecode := List.replicate 10 7
  compressed := [0x78, 0xda, 0x63, 0x60, 0x60, 0x60, 0, 0, 0, 4, 0, 1]
  functions := [⟨"main", 0, 10⟩]

theorem pack_zerosArtifact :
    pack "maps/mp/b" (List.replicate 10 7) (compressWith Encoder.zeros.encode [0, 0, 0, 0]) 4
        [⟨"main", 0, 10⟩] = .ok zerosArtifact ∧
      (ofParts zerosArtifact.metadata zerosArtifact.buffer = .ok zerosArtifact ∧
        zerosArtifact.bytecode = List.replicate 10 7 ∧
        zerosArtifact.stack = .ok [0, 0, 0, 0] ∧ zerosArtifact.view.Shows zerosArtifact) ∧
      ∃ stack, zerosArtifact.stack = .ok stack ∧
        stack.length = zerosArtifact.metadata.length.toNat := by
  have hpack : pack "maps/mp/b" (List.replicate 10 7)
      (compressWith Encoder.zeros.encode [0, 0, 0, 0]) 4 [⟨"main", 0, 10⟩] = .ok zerosArtifact :=
    eq_ok_of_toOption (by decide)
  have hparts := (pack_ofParts_inverse Encoder.zeros).1 _ _ _ _ _ hpack
  exact ⟨hpack, hparts, ((pack_ofParts_inverse Encoder.zeros).2 _ _ _ hparts.1).2.2⟩

end Artifact

end Gsc
