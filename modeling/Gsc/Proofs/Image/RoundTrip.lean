import Gsc.Image.Disassembly
import Gsc.Proofs.Image.Encoding
import Gsc.Proofs.Image.Stack

/-! # Disassembly undoes assembly

`ReadsAs` relates each part of a program to what is read back from its image. Reading an image
gives a function for each routine, in order, that the routine reads as.
-/

namespace Gsc

/-! ## What is read back -/

/-- An operand of a routine whose code starts at offset `start`: values come back as they are, a
string with an offset in the pool, and a label as the offset of the instruction it is bound to. -/
def Operand.ReadsAs (image : Image) (r : Routine) (start : Nat) :
    Operand → DecodedOperand → Prop
  | .byte v, .byte w => w = v
  | .short v, .short w => w = v
  | .int v, .int w => w = v
  | .float v, .float w => w.bits = v.bits
  | .text s, .text offset value =>
      value = s ∧ Stack.headerSize image.functions.length ≤ offset.toNat ∧
        offset.toNat < image.stack.length
  | .label l, .jump _ target =>
      ∃ index, r.target? l = some index ∧ index ≤ r.code.length ∧
        target = start + Assembly.sizeOf (r.code.take index)
  | _, _ => False

structure Instruction.ReadsAs (image : Image) (r : Routine) (start offset : Nat)
    (i : Instruction) (d : DecodedInstruction) : Prop where
  offset : d.offset = start + offset
  opcode : d.opcode = i.opcode
  operands : List.Forall₂ (Operand.ReadsAs image r start) i.operands d.operands

/-- A routine reads as a function of its name and size whose instructions are its own, each at
the offset that the ones before it make up. -/
structure Routine.ReadsAs (image : Image) (r : Routine) (f : DecodedFunction) : Prop where
  name : f.name = r.name
  size : f.size.toNat = Assembly.sizeOf r.code
  length : f.code.length = r.code.length
  instruction : ∀ (index : Nat) (i : Instruction), r.code[index]? = some i →
    ∃ d, f.code[index]? = some d ∧
      i.ReadsAs image r f.offset.toNat (Assembly.sizeOf (r.code.take index)) d

def DecodedFunction.entry (f : DecodedFunction) : FunctionEntry := ⟨f.name, f.offset, f.size⟩

theorem OpcodeTable.opcode?_byte (t : OpcodeTable) (op : Opcode) :
    t.opcode? (t.byte op) = some op :=
  (t.opcode?_eq_some_iff _ op).2 rfl

namespace Disassembly

open Assembly hiding sizeOf

variable {t : OpcodeTable} {image : Image} {names : List UInt32} {final : StringPool}

def settingOf (t : OpcodeTable) (image : Image) : Setting :=
  ⟨t, image.stack, image.bytecode.length⟩

/-! ## Operands -/

theorem toInt32_of_word (v : Int32) :
    (Bytes.toNat (Bytes.ofNat 4 v.toUInt32.toNat)).toUInt32.toInt32 = v := by
  rw [Bytes.toNat_ofNat_uint32]
  simp

/-- A distance that was written leads back to the offset of the label's instruction. -/
theorem decodeOperand_distance {r : Routine} {start stop place l : Nat} {distance : Int}
    (hfit : start + Assembly.sizeOf r.code ≤ image.bytecode.length)
    (h : Assembly.distance r stop l = .ok distance) :
    ∃ d, decodeOperand (settingOf t image) place (start + stop) .jump
        (Bytes.ofNat 4 (Int32.ofInt distance).toUInt32.toNat) = .ok d ∧
      Operand.ReadsAs image r start (.label l) d := by
  obtain ⟨index, hle, hindex, hd, hleast, hmost⟩ := target_of_distance h
  have hsize := sizeOf_take_le r.code index
  have hback := Int32.toInt_ofInt_of_le (n := distance) (by omega) (by omega)
  refine ⟨.jump (Int32.ofInt distance) (start + Assembly.sizeOf (r.code.take index)), ?_, index,
    hindex, hle, rfl⟩
  simp only [decodeOperand, toInt32_of_word, hback, settingOf]
  rw [if_pos (by omega)]
  congr 2
  omega

theorem decodeOperand_encodeOperand (place : Nat) {r : Routine} {start stop : Nat}
    {pool pool' : StringPool} {operand : Operand} {bytes : Bytes}
    (hw : Stack.Written image.stack image.functions names final) (hg : pool'.Grows final)
    (hfit : start + Assembly.sizeOf r.code ≤ image.bytecode.length)
    (h : encodeOperand r stop pool operand = .ok (bytes, pool')) :
    ∃ d, decodeOperand (settingOf t image) place (start + stop) operand.kind bytes = .ok d ∧
      operand.ReadsAs image r start d := by
  cases operand with
  | byte v =>
      cases h
      exact ⟨.byte v, by simp [decodeOperand, Operand.kind], rfl⟩
  | short v =>
      cases h
      exact ⟨.short v, by simp only [decodeOperand, Operand.kind, Bytes.toNat_ofNat_uint16], rfl⟩
  | int v =>
      cases h
      exact ⟨.int v, by simp only [decodeOperand, Operand.kind, toInt32_of_word], rfl⟩
  | float v =>
      cases h
      refine ⟨.float v, ?_, rfl⟩
      simp [decodeOperand, Operand.kind, Bytes.toNat_ofNat_uint32]
  | text s =>
      obtain ⟨⟨offset, pool₁⟩, hi, h⟩ := bind_eq_ok.1 h
      cases h
      have hs := (intern_spec hi).2.grows hg
      refine ⟨.text offset s, ?_, rfl, hw.offset_mem_pool hs⟩
      simp only [decodeOperand, Operand.kind, Stack.toUInt32_toNat_word, settingOf,
        hw.readString_eq hs]
  | label l =>
      obtain ⟨distance, hd, h⟩ := bind_eq_ok.1 h
      cases h
      exact decodeOperand_distance hfit hd

theorem decodeOperands_encodeOperands (place : Nat) {r : Routine} {start stop : Nat}
    {operands : List Operand} {pool pool' : StringPool} {bytes : Bytes}
    (hw : Stack.Written image.stack image.functions names final) (hg : pool'.Grows final)
    (hfit : start + Assembly.sizeOf r.code ≤ image.bytecode.length)
    (h : encodeOperands r stop pool operands = .ok (bytes, pool')) :
    ∃ ds, decodeOperands (settingOf t image) place (start + stop) (operands.map Operand.kind)
        bytes = .ok ds ∧ List.Forall₂ (Operand.ReadsAs image r start) operands ds := by
  induction operands generalizing pool bytes with
  | nil => exact ⟨[], rfl, .nil⟩
  | cons operand operands ih =>
      obtain ⟨front, pool₁, back, h₁, h₂, rfl⟩ := encodeOperands_cons_eq_ok h
      have hl := (encodeOperand_spec h₁).2
      obtain ⟨d, hd, hr⟩ := decodeOperand_encodeOperand (t := t) place hw
        ((encodeOperands_spec h₂).1.trans hg) hfit h₁
      obtain ⟨ds, hds, hrs⟩ := ih h₂
      refine ⟨d :: ds, ?_, .cons hr hrs⟩
      rw [List.map_cons, decodeOperands, List.take_left' hl, List.drop_left' hl]
      exact bind_eq_ok.2 ⟨d, hd, bind_eq_ok.2 ⟨ds, hds, rfl⟩⟩

/-! ## Code -/

theorem decodeCode_cons {s : Setting} {offset : Nat} {op : Opcode} {raw back : Bytes}
    {operands : List DecodedOperand} {code : List DecodedInstruction}
    (hop : s.table.opcode? (s.table.byte op) = some op)
    (hraw : raw.length = OperandKind.totalWidth op.operands)
    (hd : decodeOperands s offset (offset + op.encodedSize) op.operands raw = .ok operands)
    (hc : decodeCode s (offset + op.encodedSize) back = .ok code) :
    decodeCode s offset (s.table.byte op :: (raw ++ back))
      = .ok (⟨offset, op, operands⟩ :: code) := by
  rw [decodeCode]
  simp only [hop]
  split
  · rename_i hs
    rw [Bytes.split?_append back hraw] at hs
    cases hs
  · rename_i raw' back' hs
    rw [Bytes.split?_append back hraw] at hs
    cases hs
    exact bind_eq_ok.2 ⟨operands, hd, bind_eq_ok.2 ⟨code, hc, rfl⟩⟩

/-- The code behind the instructions `done` is read back one instruction at a time. -/
theorem decodeCode_encodeCode (start : Nat) (done : List Instruction) {r : Routine}
    {code : List Instruction} {pool pool' : StringPool} {bytes : Bytes}
    (hw : Stack.Written image.stack image.functions names final) (hg : pool'.Grows final)
    (hfit : start + Assembly.sizeOf r.code ≤ image.bytecode.length) (hdone : r.code = done ++ code)
    (hk : ∀ i ∈ code, i.opcode.operands = i.operands.map Operand.kind)
    (h : encodeCode t r (Assembly.sizeOf done) pool code = .ok (bytes, pool')) :
    ∃ ds, decodeCode (settingOf t image) (start + Assembly.sizeOf done) bytes = .ok ds ∧
      ds.length = code.length ∧
      ∀ (index : Nat) (i : Instruction), code[index]? = some i → ∃ d, ds[index]? = some d ∧
        i.ReadsAs image r start (Assembly.sizeOf (r.code.take (done.length + index))) d := by
  induction code generalizing done pool bytes with
  | nil =>
      cases h
      refine ⟨[], by rw [decodeCode], rfl, ?_⟩
      intro index i hi
      simp at hi
  | cons i code ih =>
      obtain ⟨front, pool₁, back, h₁, h₂, rfl⟩ := encodeCode_cons_eq_ok h
      have hki := hk i List.mem_cons_self
      have hkc : ∀ j ∈ code, j.opcode.operands = j.operands.map Operand.kind :=
        fun j hj => hk j (List.mem_cons_of_mem i hj)
      have hnext : Assembly.sizeOf done + i.opcode.encodedSize = Assembly.sizeOf (done ++ [i]) := by
        rw [sizeOf_append]
        simp [Assembly.sizeOf]
      obtain ⟨operands, ho, hro⟩ := decodeOperands_encodeOperands (t := t)
        (start + Assembly.sizeOf done) hw ((encodeCode_spec hkc h₂).1.trans hg) hfit h₁
      rw [hnext] at h₂
      obtain ⟨ds, hds, hlen, hrest⟩ := ih (done ++ [i]) (by simp [hdone]) hkc h₂
      refine ⟨⟨start + Assembly.sizeOf done, i.opcode, operands⟩ :: ds, ?_, ?_, ?_⟩
      · apply decodeCode_cons (t.opcode?_byte i.opcode)
        · rw [(encodeOperands_spec h₁).2, hki]
        · rw [hki, Nat.add_assoc]
          exact ho
        · rw [Nat.add_assoc, hnext]
          exact hds
      · rw [List.length_cons, List.length_cons, hlen]
      · intro index j hj
        cases index with
        | zero =>
            cases hj
            refine ⟨_, rfl, ⟨?_, rfl, hro⟩⟩
            rw [hdone, Nat.add_zero, List.take_left]
        | succ index =>
            obtain ⟨d, hd, hr⟩ := hrest index j hj
            refine ⟨d, hd, ?_⟩
            rw [List.length_append, List.length_singleton, Nat.add_assoc, Nat.add_comm 1] at hr
            exact hr

/-! ## Functions -/

/-- The code of a routine that stands at an offset of the bytecode. -/
theorem decodeFunction_encodeRoutine {r : Routine} {pool pool' : StringPool}
    {front bytes back : Bytes} {start size nameOffset : UInt32}
    (hw : Stack.Written image.stack image.functions names final) (hg : pool'.Grows final)
    (hb : image.bytecode = front ++ bytes ++ back) (hstart : start.toNat = front.length)
    (hsize : size.toNat = bytes.length) (hname : final.Holds r.name nameOffset)
    (h : encodeRoutine t pool r = .ok (bytes, pool')) :
    ∃ f, decodeFunction (settingOf t image) image.bytecode ⟨start, size, nameOffset⟩ = .ok f ∧
      r.ReadsAs image f ∧ f.entry = ⟨r.name, start, size⟩ := by
  obtain ⟨hk, hc, -, hl⟩ := encodeRoutine_spec h
  have hlen : image.bytecode.length = front.length + bytes.length + back.length := by
    rw [hb, List.length_append, List.length_append]
  have hcut : (image.bytecode.drop start.toNat).take size.toNat = bytes := by
    rw [hb, List.append_assoc, hstart, List.drop_left, hsize, List.take_left]
  obtain ⟨ds, hds, hdl, hall⟩ :=
    decodeCode_encodeCode (t := t) start.toNat [] hw hg (by omega) rfl hk hc
  refine ⟨⟨r.name, start, size, ds⟩, ?_, ⟨rfl, by rw [hsize, hl], hdl, ?_⟩, rfl⟩
  · have hs : Stack.readString (settingOf t image).stack nameOffset = .ok r.name :=
      hw.readString_eq hname
    have hin : ¬ (settingOf t image).length < start.toNat + size.toNat := by
      simp only [settingOf]
      omega
    rw [Assembly.sizeOf, Nat.add_zero] at hds
    rw [decodeFunction, hs]
    dsimp only
    rw [if_neg hin, hcut, hds]
    rfl
  · intro index i hi
    obtain ⟨d, hd, hr⟩ := hall index i hi
    rw [List.length_nil, Nat.zero_add] at hr
    exact ⟨d, hd, hr⟩

theorem decodeFunctions_encodeRoutines (front : Bytes) {routines : List Routine}
    {nameOffsets : List UInt32} {pool pool' : StringPool} {bytes : Bytes}
    {entries : List FunctionEntry}
    (hw : Stack.Written image.stack image.functions names final) (hg : pool'.Grows final)
    (hb : image.bytecode = front ++ bytes)
    (hnames : List.Forall₂ final.Holds (routines.map (·.name)) nameOffsets)
    (h : encodeRoutines t front.length pool routines = .ok (bytes, entries, pool')) :
    ∃ fs, decodeFunctions (settingOf t image) image.bytecode
        (List.zipWith Stack.toRow entries nameOffsets) = .ok fs ∧
      List.Forall₂ (Routine.ReadsAs image) routines fs ∧
      fs.map DecodedFunction.entry = entries := by
  induction routines generalizing nameOffsets pool front bytes entries with
  | nil =>
      cases h
      exact ⟨[], rfl, .nil, rfl⟩
  | cons r routines ih =>
      obtain ⟨nameOffset, nameOffsets, hname, hrest, rfl⟩ :
          ∃ o os, final.Holds r.name o ∧
            List.Forall₂ final.Holds (routines.map (·.name)) os ∧ nameOffsets = o :: os := by
        cases hnames with
        | cons ho hos => exact ⟨_, _, ho, hos, rfl⟩
      obtain ⟨code, pool₁, start, size, back, rest, h₁, hstart, hsize, h₂, rfl, rfl⟩ :=
        encodeRoutines_cons_eq_ok h
      have hplace : image.bytecode = front ++ code ++ back := by rw [hb, List.append_assoc]
      obtain ⟨f, hf, hr, he⟩ := decodeFunction_encodeRoutine (t := t) hw
        ((encodeRoutines_spec h₂).1.trans hg) hplace hstart hsize hname h₁
      rw [← List.length_append] at h₂
      obtain ⟨fs, hfs, hrs, hes⟩ := ih (front ++ code) hplace hrest h₂
      refine ⟨f :: fs, ?_, .cons hr hrs, by rw [List.map_cons, he, hes]⟩
      rw [List.zipWith_cons_cons, decodeFunctions]
      exact bind_eq_ok.2 ⟨f, hf, bind_eq_ok.2 ⟨fs, hfs, rfl⟩⟩

end Disassembly

/-! ## Programs -/

/-- What assembling a program comes to: a pool that holds the names of the routines first and all
strings of the code in the end, the code of the routines, and a region written from both. -/
structure Program.Assembled (p : Program) (t : OpcodeTable) (image : Image) (names : List UInt32)
    (first final : StringPool) : Prop where
  code : Assembly.encodeRoutines t 0 first p.routines = .ok (image.bytecode, image.functions, final)
  held : List.Forall₂ final.Holds (p.routines.map (·.name)) names
  stack : Stack.Written image.stack image.functions names final

open Assembly in
theorem Program.assembled_of_assemble {p : Program} {t : OpcodeTable} {image : Image}
    (h : p.assemble t = .ok image) :
    ∃ names first final, p.Assembled t image names first final := by
  obtain ⟨base, hbase, h⟩ := bind_eq_ok.1 h
  obtain ⟨⟨names, first⟩, hnames, h⟩ := bind_eq_ok.1 h
  obtain ⟨⟨bytecode, functions, final⟩, hcode, h⟩ := bind_eq_ok.1 h
  obtain ⟨_, -, h⟩ := bind_eq_ok.1 h
  obtain ⟨_, hstack, h⟩ := bind_eq_ok.1 h
  cases h
  obtain ⟨hg, hheld⟩ := internAll_spec hnames
  obtain ⟨hg', hlen⟩ := encodeRoutines_spec hcode
  have hcount : names.length = functions.length := by
    rw [← hheld.length_eq, List.length_map, hlen]
  refine ⟨names, first, final, hcode, hheld.imp fun _ _ hs => hs.grows hg', ?_⟩
  refine ⟨rfl, hcount, ?_, hg'.faithful (hg.faithful (StringPool.faithful_empty base)),
    (checkSize_eq_ok hstack).1⟩
  rw [hg'.base, hg.base, hlen]
  exact toNat_of_checkSize hbase

theorem Program.Assembled.readsBack {p : Program} {t : OpcodeTable} {image : Image}
    {names : List UInt32} {first final : StringPool} (h : p.Assembled t image names first final) :
    ∃ fs, disassembleFunctions t image.bytecode image.stack = .ok fs ∧
      List.Forall₂ (Routine.ReadsAs image) p.routines fs ∧
      fs.map DecodedFunction.entry = image.functions := by
  rw [disassembleFunctions, h.stack.readRows_eq]
  exact Disassembly.decodeFunctions_encodeRoutines [] h.stack (.refl _) rfl h.held
    h.code

/-- Reading the image of a program gives one function for each routine, in order, with the name,
offset and size that the image lists, and the routine reads as it. -/
theorem disassembleFunctions_assemble (p : Program) (t : OpcodeTable) (image : Image)
    (h : p.assemble t = .ok image) :
    ∃ fs, disassembleFunctions t image.bytecode image.stack = .ok fs ∧
      fs.map DecodedFunction.entry = image.functions ∧
      List.Forall₂ (Routine.ReadsAs image) p.routines fs := by
  obtain ⟨names, first, final, ha⟩ := p.assembled_of_assemble h
  obtain ⟨fs, hfs, hr, he⟩ := ha.readsBack
  exact ⟨fs, hfs, he, hr⟩

/-- Two routines that share a string, with a jump forward, one back and one to the end. -/
def sharedName : Program where
  name := "shared"
  includes := []
  animtree := none
  routines :=
    [⟨"main", 0, [],
        [⟨.createLocalVariables, [.byte 0, .byte 0]⟩, ⟨.getString, [.text "hé"]⟩,
          ⟨.jumpOnFalse, [.label 0]⟩, ⟨.getInteger, [.int (-70000)]⟩, ⟨.jump, [.label 1]⟩,
          ⟨.finish, []⟩],
        [some 5, some 1]⟩,
      ⟨"init", 0, [],
        [⟨.getString, [.text "main"]⟩, ⟨.getFloat, [.float ⟨0x7fc00001⟩]⟩, ⟨.jump, [.label 0]⟩],
        [some 3]⟩]

def sharedNameImage : Image where
  bytecode :=
    [0, 0, 0, 11, 38, 0, 0, 0, 50, 10, 0, 0, 0, 9, 144, 238, 254, 255, 49, 236, 255, 255, 255, 1,
      11, 28, 0, 0, 0, 10, 1, 0, 192, 127, 49, 0, 0, 0, 0]
  stack :=
    [2, 0, 0, 0, 0, 0, 0, 0, 24, 0, 0, 0, 28, 0, 0, 0, 24, 0, 0, 0, 15, 0, 0, 0, 33, 0, 0, 0,
      109, 97, 105, 110, 0, 105, 110, 105, 116, 0, 104, 195, 169, 0]
  functions := [⟨"main", 0, 24⟩, ⟨"init", 24, 15⟩]

theorem disassembleFunctions_sharedName :
    sharedName.assemble .v1 = .ok sharedNameImage ∧
      ∃ fs, disassembleFunctions .v1 sharedNameImage.bytecode sharedNameImage.stack = .ok fs ∧
        fs.map DecodedFunction.entry = sharedNameImage.functions ∧
        List.Forall₂ (Routine.ReadsAs sharedNameImage) sharedName.routines fs := by
  have h : sharedName.assemble .v1 = .ok sharedNameImage := by rfl
  exact ⟨h, disassembleFunctions_assemble sharedName .v1 sharedNameImage h⟩

end Gsc
