import Gsc.Image.Disassembly
import Gsc.Proofs.Bytes
import Gsc.Proofs.Except
import Gsc.Proofs.Lists

/-! # Sweeps over arbitrary bytes

Reading bytecode from its start to its end either ends with an error or gives instructions that lie
one behind the other and make up the bytecode again. It ends with an error exactly if an offset that
it reaches holds no readable instruction, and it never asks for a byte outside the bytecode.
-/

namespace Gsc

/-- Things that begin at offsets and take some bytes lie one behind the other from `start` to
`stop`. -/
def Tiles {α : Type} (offset size : α → Nat) : Nat → List α → Nat → Prop
  | start, [], stop => start = stop
  | start, a :: rest, stop => offset a = start ∧ Tiles offset size (start + size a) rest stop

/-! ## Writing back -/

namespace DecodedOperand

def kind : DecodedOperand → OperandKind
  | byte _ => .byte
  | short _ => .short
  | int _ => .int
  | float _ => .float
  | text .. => .text
  | jump .. => .jump

def bytes : DecodedOperand → Bytes
  | byte v => [v]
  | short v => Bytes.ofNat 2 v.toNat
  | int v => Bytes.ofNat 4 v.toUInt32.toNat
  | float v => Bytes.ofNat 4 v.bits.toNat
  | text offset _ => Stack.word offset
  | jump distance _ => Bytes.ofNat 4 distance.toUInt32.toNat

/-- A string is the one at its offset, and a jump from `stop` leads to its target within the
bytecode. -/
def Resolves (stack : Bytes) (length stop : Nat) : DecodedOperand → Prop
  | text offset value => Stack.readString stack offset = .ok value
  | jump distance target => (target : Int) = stop + distance.toInt ∧ target ≤ length
  | _ => True

end DecodedOperand

namespace DecodedInstruction

def bytes (t : OpcodeTable) (d : DecodedInstruction) : Bytes :=
  t.byte d.opcode :: d.operands.flatMap DecodedOperand.bytes

/-- The operands are those of the opcode and mean what they should. -/
structure Resolved (stack : Bytes) (length : Nat) (d : DecodedInstruction) : Prop where
  kinds : d.operands.map DecodedOperand.kind = d.opcode.operands
  operands : ∀ o ∈ d.operands, o.Resolves stack length (d.offset + d.opcode.encodedSize)

end DecodedInstruction

theorem OpcodeTable.byte_of_opcode? {t : OpcodeTable} {byte : UInt8} {op : Opcode}
    (h : t.opcode? byte = some op) : t.byte op = byte :=
  (t.opcode?_eq_some_iff byte op).1 h

namespace Disassembly

theorem spec_of_decodeOperand {s : Setting} {start stop : Nat} {kind : OperandKind} {raw : Bytes}
    {d : DecodedOperand} (hraw : raw.length = kind.width)
    (h : decodeOperand s start stop kind raw = .ok d) :
    d.kind = kind ∧ d.bytes = raw ∧ d.Resolves s.stack s.length stop := by
  cases kind with
  | byte =>
      obtain ⟨b, rfl⟩ := List.length_eq_one_iff.1 hraw
      cases h
      exact ⟨rfl, by simp [DecodedOperand.bytes], trivial⟩
  | short =>
      cases h
      exact ⟨rfl, Bytes.ofNat_toUInt16 hraw, trivial⟩
  | int =>
      cases h
      refine ⟨rfl, ?_, trivial⟩
      rw [DecodedOperand.bytes, UInt32.toUInt32_toInt32]
      exact Bytes.ofNat_toUInt32 hraw
  | float =>
      cases h
      exact ⟨rfl, Bytes.ofNat_toUInt32 hraw, trivial⟩
  | text =>
      simp only [decodeOperand] at h
      split at h
      · rename_i hread
        cases h
        exact ⟨rfl, Bytes.ofNat_toUInt32 hraw, hread⟩
      · cases h
  | jump =>
      simp only [decodeOperand] at h
      split at h
      · rename_i hrange
        cases h
        refine ⟨rfl, ?_, Int.toNat_of_nonneg hrange.1, by omega⟩
        rw [DecodedOperand.bytes, UInt32.toUInt32_toInt32]
        exact Bytes.ofNat_toUInt32 hraw
      · cases h

theorem spec_of_decodeOperands {s : Setting} {start stop : Nat} {kinds : List OperandKind}
    {raw : Bytes} {ds : List DecodedOperand} (hraw : raw.length = OperandKind.totalWidth kinds)
    (h : decodeOperands s start stop kinds raw = .ok ds) :
    ds.map DecodedOperand.kind = kinds ∧ ds.flatMap DecodedOperand.bytes = raw ∧
      ∀ d ∈ ds, d.Resolves s.stack s.length stop := by
  induction kinds generalizing raw ds with
  | nil =>
      cases h
      exact ⟨rfl, (List.length_eq_zero_iff.1 hraw).symm, by simp⟩
  | cons kind kinds ih =>
      rw [OperandKind.totalWidth] at hraw
      obtain ⟨d, hd, h⟩ := bind_eq_ok.1 h
      obtain ⟨rest, hrest, h⟩ := bind_eq_ok.1 h
      cases h
      obtain ⟨hkind, hbytes, hd⟩ := spec_of_decodeOperand (by simp; omega) hd
      obtain ⟨hkinds, hback, hds⟩ := ih (by simp; omega) hrest
      refine ⟨by rw [List.map_cons, hkind, hkinds], ?_, List.forall_mem_cons.2 ⟨hd, hds⟩⟩
      rw [List.flatMap_cons, hbytes, hback, List.take_append_drop]

/-- What was read tiles the bytes it was read from and is written back as them. -/
theorem spec_of_decodeCode {s : Setting} {offset : Nat} {code : Bytes}
    {ds : List DecodedInstruction} (h : decodeCode s offset code = .ok ds) :
    Tiles (·.offset) (·.opcode.encodedSize) offset ds (offset + code.length) ∧
      ds.flatMap (·.bytes s.table) = code ∧ ∀ d ∈ ds, d.Resolved s.stack s.length := by
  fun_induction decodeCode s offset code generalizing ds with
  | case1 =>
      cases h
      exact ⟨rfl, rfl, by simp⟩
  | case2 => cases h
  | case3 => cases h
  | case4 offset byte rest op hop raw back hsplit stop =>
      rename_i ih
      obtain ⟨rfl, hraw⟩ := Bytes.split?_eq_some_iff.1 hsplit
      obtain ⟨operands, ho, h⟩ := bind_eq_ok.1 h
      obtain ⟨more, hmore, h⟩ := bind_eq_ok.1 h
      cases h
      obtain ⟨htiles, hback, hrest⟩ := ih hmore
      obtain ⟨hkinds, hbytes, hresolves⟩ := spec_of_decodeOperands hraw ho
      refine ⟨⟨rfl, ?_⟩, ?_, List.forall_mem_cons.2 ⟨⟨hkinds, hresolves⟩, hrest⟩⟩
      · have hend : offset + (byte :: (raw ++ back)).length
            = offset + op.encodedSize + back.length := by
          simp only [List.length_cons, List.length_append, hraw, Opcode.encodedSize]
          omega
        rw [hend]
        exact htiles
      · rw [List.flatMap_cons, DecodedInstruction.bytes, OpcodeTable.byte_of_opcode? hop, hbytes,
          hback, List.cons_append]

/-! ## One step of a sweep -/

theorem decodeOperands_append (s : Setting) (start stop : Nat) {kinds : List OperandKind}
    {raw : Bytes} (back : Bytes) (hraw : raw.length = OperandKind.totalWidth kinds) :
    decodeOperands s start stop kinds (raw ++ back) = decodeOperands s start stop kinds raw := by
  induction kinds generalizing raw with
  | nil => rfl
  | cons kind kinds ih =>
      rw [OperandKind.totalWidth] at hraw
      have hle : kind.width ≤ raw.length := by omega
      rw [decodeOperands, decodeOperands, List.take_append_of_le_length hle,
        List.drop_append_of_le_length hle, ih (by simp; omega)]

/-- Reading goes on from an offset by its instruction alone, whose operands stand behind the byte
of the opcode. -/
theorem decodeCode_drop (s : Setting) {bytecode : Bytes} {offset : Nat} {byte : UInt8}
    (hbyte : bytecode[offset]? = some byte) :
    decodeCode s offset (bytecode.drop offset) =
      match s.table.opcode? byte with
      | none => .error (.unknownOpcode offset byte)
      | some op =>
        if bytecode.length < offset + op.encodedSize then .error (.truncated offset op)
        else do
          let operands ← decodeOperands s offset (offset + op.encodedSize) op.operands
            (bytecode.drop (offset + 1))
          let code ← decodeCode s (offset + op.encodedSize)
            (bytecode.drop (offset + op.encodedSize))
          return ⟨offset, op, operands⟩ :: code := by
  obtain ⟨hlt, rfl⟩ := List.getElem?_eq_some_iff.1 hbyte
  rw [List.drop_eq_getElem_cons hlt, decodeCode]
  cases hop : s.table.opcode? bytecode[offset] with
  | none => rfl
  | some op =>
      have hnext : offset + op.encodedSize = offset + 1 + OperandKind.totalWidth op.operands := by
        rw [Opcode.encodedSize]
        omega
      have hlength : (bytecode.drop (offset + 1)).length = bytecode.length - (offset + 1) :=
        List.length_drop
      dsimp only
      split
      · rename_i hsplit
        rw [Bytes.split?_eq_ite] at hsplit
        split at hsplit
        · rw [if_pos (by omega)]
        · cases hsplit
      · rename_i raw back hsplit
        obtain ⟨happ, hraw⟩ := Bytes.split?_eq_some_iff.1 hsplit
        have hback : bytecode.drop (offset + op.encodedSize) = back := by
          rw [hnext, ← List.drop_drop, happ, List.drop_left' hraw]
        have hlen := congrArg List.length happ
        rw [List.length_append] at hlen
        rw [if_neg (by omega), hback, happ, decodeOperands_append s _ _ back hraw]

theorem decodeCode_drop_of_le (s : Setting) {bytecode : Bytes} {offset : Nat}
    (h : bytecode.length ≤ offset) : decodeCode s offset (bytecode.drop offset) = .ok [] := by
  rw [List.drop_eq_nil_iff.2 h, decodeCode]

/-! ## Accesses -/

/-- The operands of an instruction, read from their places in the bytecode. There is no result if a
place lies outside. -/
def fetchOperands? (s : Setting) (bytecode : Bytes) (start stop : Nat) :
    Nat → List OperandKind → Option (Except DisassembleError (List DecodedOperand))
  | _, [] => some (.ok [])
  | place, kind :: kinds =>
    match slice? bytecode place (place + kind.width) with
    | none => none
    | some raw =>
      match decodeOperand s start stop kind raw with
      | .error e => some (.error e)
      | .ok operand =>
        (fetchOperands? s bytecode start stop (place + kind.width) kinds).map
          (·.map (operand :: ·))

/-- The instructions from an offset on, read from their places in the bytecode. There is no result
if a place lies outside. -/
def sweep? (s : Setting) (bytecode : Bytes) (offset : Nat) :
    Option (Except DisassembleError (List DecodedInstruction)) :=
  if offset < bytecode.length then
    match bytecode[offset]? with
    | none => none
    | some byte =>
      match s.table.opcode? byte with
      | none => some (.error (.unknownOpcode offset byte))
      | some op =>
        let stop := offset + op.encodedSize
        if bytecode.length < stop then some (.error (.truncated offset op))
        else
          match fetchOperands? s bytecode offset stop (offset + 1) op.operands with
          | none => none
          | some (.error e) => some (.error e)
          | some (.ok operands) =>
            (sweep? s bytecode stop).map (·.map (⟨offset, op, operands⟩ :: ·))
  else some (.ok [])
termination_by bytecode.length - offset
decreasing_by
  rw [Opcode.encodedSize]
  omega

theorem fetchOperands?_eq (s : Setting) {bytecode : Bytes} (start stop : Nat) {place : Nat}
    {kinds : List OperandKind} (h : place + OperandKind.totalWidth kinds ≤ bytecode.length) :
    fetchOperands? s bytecode start stop place kinds
      = some (decodeOperands s start stop kinds (bytecode.drop place)) := by
  induction kinds generalizing place with
  | nil => rfl
  | cons kind kinds ih =>
      rw [OperandKind.totalWidth] at h
      rw [fetchOperands?, slice?_add (by omega), decodeOperands, List.drop_drop]
      dsimp only
      cases decodeOperand s start stop kind ((bytecode.drop place).take kind.width) with
      | error e => rfl
      | ok operand =>
          dsimp only
          rw [ih (by omega)]
          cases decodeOperands s start stop kinds (bytecode.drop (place + kind.width)) <;> rfl

/-- No place outside is asked for. -/
theorem sweep?_eq (s : Setting) (bytecode : Bytes) (offset : Nat) :
    sweep? s bytecode offset = some (decodeCode s offset (bytecode.drop offset)) := by
  fun_induction sweep? s bytecode offset with
  | case1 offset hlt hnone =>
      rw [List.getElem?_eq_some_iff.2 ⟨hlt, rfl⟩] at hnone
      cases hnone
  | case2 offset hlt byte hbyte hop => rw [decodeCode_drop s hbyte, hop]
  | case3 offset hlt byte hbyte op hop stop hcross =>
      rw [decodeCode_drop s hbyte, hop]
      exact congrArg some (if_pos hcross).symm
  | case4 offset hlt byte hbyte op hop stop hfits hnone =>
      rw [fetchOperands?_eq] at hnone
      · cases hnone
      · simp only [stop, Opcode.encodedSize] at hfits
        omega
  | case5 offset hlt byte hbyte op hop stop hfits e hfetch =>
      rw [fetchOperands?_eq] at hfetch
      · rw [decodeCode_drop s hbyte, hop]
        dsimp only
        rw [if_neg hfits, Option.some.inj hfetch]
        rfl
      · simp only [stop, Opcode.encodedSize] at hfits
        omega
  | case6 offset hlt byte hbyte op hop stop hfits operands hfetch ih =>
      rw [fetchOperands?_eq] at hfetch
      · rw [ih, decodeCode_drop s hbyte, hop]
        dsimp only
        rw [if_neg hfits, Option.some.inj hfetch]
        cases decodeCode s stop (bytecode.drop stop) <;> rfl
      · simp only [stop, Opcode.encodedSize] at hfits
        omega
  | case7 offset hle => rw [decodeCode_drop_of_le s (by omega)]

end Disassembly

/-! ## What a sweep refuses -/

def OperandKind.fields : Nat → List OperandKind → List (Nat × OperandKind)
  | _, [] => []
  | place, kind :: kinds => (place, kind) :: fields (place + kind.width) kinds

def Bytes.wordAt (bytes : Bytes) (place : Nat) : UInt32 :=
  (toNat ((bytes.drop place).take 4)).toUInt32

namespace Disassembly

def opcodeAt? (t : OpcodeTable) (bytecode : Bytes) (offset : Nat) : Option Opcode :=
  (bytecode[offset]?).bind t.opcode?

/-- From one offset to another over whole instructions, whatever their operands are. -/
inductive Reaches (t : OpcodeTable) (bytecode : Bytes) : Nat → Nat → Prop
  | refl (offset : Nat) : Reaches t bytecode offset offset
  | step {offset last : Nat} {op : Opcode} (hop : opcodeAt? t bytecode offset = some op)
      (hend : offset + op.encodedSize ≤ bytecode.length)
      (hrest : Reaches t bytecode (offset + op.encodedSize) last) : Reaches t bytecode offset last

/-- The operand at a place cannot be read: the string of the word is not in the stack region, or
the jump over the word's distance from `stop` leads out of the bytecode. -/
def Unreadable (bytecode stack : Bytes) (stop : Nat) : Nat × OperandKind → Prop
  | (place, .text) => ∀ text, Stack.readString stack (bytecode.wordAt place) ≠ .ok text
  | (place, .jump) =>
    let target : Int := stop + (bytecode.wordAt place).toInt32.toInt
    target < 0 ∨ bytecode.length < target
  | _ => False

/-- An offset within the bytecode where no instruction can be read: its byte is unassigned, the
instruction would cross the end, or an operand cannot be read. -/
inductive Defective (t : OpcodeTable) (bytecode stack : Bytes) (offset : Nat) : Prop
  | unassigned (hoffset : offset < bytecode.length) (hop : opcodeAt? t bytecode offset = none)
  | crossing {op : Opcode} (hop : opcodeAt? t bytecode offset = some op)
      (hend : bytecode.length < offset + op.encodedSize)
  | operand {op : Opcode} {field : Nat × OperandKind}
      (hop : opcodeAt? t bytecode offset = some op)
      (hend : offset + op.encodedSize ≤ bytecode.length)
      (hfield : field ∈ OperandKind.fields (offset + 1) op.operands)
      (hread : Unreadable bytecode stack (offset + op.encodedSize) field)

theorem exists_error_decodeOperand_iff {s : Setting} {bytecode : Bytes} {start stop place : Nat}
    {kind : OperandKind} (hs : s.length = bytecode.length) :
    (∃ e, decodeOperand s start stop kind ((bytecode.drop place).take kind.width) = .error e) ↔
      Unreadable bytecode s.stack stop (place, kind) := by
  cases kind with
  | byte | short | int | float => simp [decodeOperand, Unreadable]
  | text =>
      simp only [decodeOperand, Unreadable, OperandKind.width, Bytes.wordAt]
      split
      · rename_i hread
        simp [hread]
      · rename_i hread
        simp [hread]
  | jump =>
      simp only [decodeOperand, Unreadable, OperandKind.width, Bytes.wordAt, hs]
      split
      · simp only [reduceCtorEq, exists_false, false_iff]
        omega
      · simp only [Except.error.injEq, exists_eq', true_iff]
        omega

theorem exists_error_decodeOperands_iff {s : Setting} {bytecode : Bytes} {start stop place : Nat}
    {kinds : List OperandKind} (hs : s.length = bytecode.length) :
    (∃ e, decodeOperands s start stop kinds (bytecode.drop place) = .error e) ↔
      ∃ field ∈ OperandKind.fields place kinds, Unreadable bytecode s.stack stop field := by
  induction kinds generalizing place with
  | nil => simp [decodeOperands, OperandKind.fields]
  | cons kind kinds ih =>
      have hrest : ∀ operand : DecodedOperand,
          (∃ e, (do
            let operands ← decodeOperands s start stop kinds
              ((bytecode.drop place).drop kind.width)
            return operand :: operands : Except DisassembleError _) = .error e) ↔
          ∃ field ∈ OperandKind.fields (place + kind.width) kinds,
            Unreadable bytecode s.stack stop field := by
        intro operand
        rw [← ih, List.drop_drop, exists_error_bind_iff (Q := False), or_false]
        intro operands
        simp [pure, Except.pure]
      rw [decodeOperands, exists_error_bind_iff hrest, exists_error_decodeOperand_iff hs]
      simp [OperandKind.fields]

/-- At a whole instruction a sweep fails for an operand of it or for what follows. -/
theorem exists_error_drop_iff {s : Setting} {bytecode : Bytes} {offset : Nat} {op : Opcode}
    (hs : s.length = bytecode.length) (hop : opcodeAt? s.table bytecode offset = some op)
    (hend : offset + op.encodedSize ≤ bytecode.length) :
    (∃ e, decodeCode s offset (bytecode.drop offset) = .error e) ↔
      (∃ field ∈ OperandKind.fields (offset + 1) op.operands,
        Unreadable bytecode s.stack (offset + op.encodedSize) field) ∨
      ∃ e, decodeCode s (offset + op.encodedSize) (bytecode.drop (offset + op.encodedSize))
        = .error e := by
  obtain ⟨byte, hbyte, hop⟩ := Option.bind_eq_some_iff.1 hop
  rw [decodeCode_drop s hbyte, hop, ← exists_error_decodeOperands_iff hs]
  dsimp only
  rw [if_neg (by omega)]
  refine exists_error_bind_iff fun operands => ?_
  rw [exists_error_bind_iff (Q := False), or_false]
  simp [pure, Except.pure]

theorem exists_error_of_defective {s : Setting} {bytecode : Bytes} {offset : Nat}
    (hs : s.length = bytecode.length) (h : Defective s.table bytecode s.stack offset) :
    ∃ e, decodeCode s offset (bytecode.drop offset) = .error e := by
  cases h with
  | unassigned hoffset hop =>
      have hbyte := List.getElem?_eq_getElem hoffset
      rw [opcodeAt?, hbyte, Option.bind_some] at hop
      exact ⟨.unknownOpcode offset bytecode[offset], by rw [decodeCode_drop s hbyte, hop]⟩
  | @crossing op hop hend =>
      obtain ⟨byte, hbyte, hop⟩ := Option.bind_eq_some_iff.1 hop
      refine ⟨.truncated offset op, ?_⟩
      rw [decodeCode_drop s hbyte, hop]
      exact if_pos hend
  | @operand op field hop hend hfield hread =>
      exact (exists_error_drop_iff hs hop hend).2 (.inl ⟨field, hfield, hread⟩)

/-- Where no instruction can be read, or behind one that can, lies what makes a sweep fail. -/
theorem exists_defective_of_error {s : Setting} {bytecode : Bytes} {offset : Nat}
    (hs : s.length = bytecode.length)
    (h : ∃ e, decodeCode s offset (bytecode.drop offset) = .error e) :
    ∃ last, Reaches s.table bytecode offset last ∧ Defective s.table bytecode s.stack last := by
  by_cases hoffset : offset < bytecode.length
  · cases hop : opcodeAt? s.table bytecode offset with
    | none => exact ⟨offset, .refl offset, .unassigned hoffset hop⟩
    | some op =>
        by_cases hend : offset + op.encodedSize ≤ bytecode.length
        · rcases (exists_error_drop_iff hs hop hend).1 h with ⟨field, hfield, hread⟩ | h
          · exact ⟨offset, .refl offset, .operand hop hend hfield hread⟩
          · obtain ⟨last, hreaches, hdefective⟩ := exists_defective_of_error hs h
            exact ⟨last, .step hop hend hreaches, hdefective⟩
        · exact ⟨offset, .refl offset, .crossing hop (by omega)⟩
  · obtain ⟨e, he⟩ := h
    rw [decodeCode_drop_of_le s (by omega)] at he
    cases he
termination_by bytecode.length - offset
decreasing_by
  rw [Opcode.encodedSize]
  omega

/-- A sweep from an offset fails exactly if it reaches a defective one. -/
theorem exists_error_decodeCode_iff {s : Setting} {bytecode : Bytes} (offset : Nat)
    (hs : s.length = bytecode.length) :
    (∃ e, decodeCode s offset (bytecode.drop offset) = .error e) ↔
      ∃ last, Reaches s.table bytecode offset last ∧ Defective s.table bytecode s.stack last := by
  constructor
  · exact exists_defective_of_error hs
  · rintro ⟨last, hreaches, hdefective⟩
    induction hreaches with
    | refl offset => exact exists_error_of_defective hs hdefective
    | step hop hend _ ih => exact (exists_error_drop_iff hs hop hend).2 (.inr (ih hdefective))

end Disassembly

/-- For any bytes, a sweep stays within the bytecode. It gives instructions that tile the bytecode,
have the operands of their opcodes and are written back as the bytecode, or an error, and an error
exactly if it reaches an offset where no instruction can be read. -/
theorem disassemble_spec (t : OpcodeTable) (bytecode stack : Bytes) :
    Disassembly.sweep? ⟨t, stack, bytecode.length⟩ bytecode 0
      = some (disassemble t bytecode stack) ∧
    (∀ ds, disassemble t bytecode stack = .ok ds →
      Tiles (·.offset) (·.opcode.encodedSize) 0 ds bytecode.length ∧
        ds.flatMap (·.bytes t) = bytecode ∧ ∀ d ∈ ds, d.Resolved stack bytecode.length) ∧
    ((∃ e, disassemble t bytecode stack = .error e) ↔
      ∃ offset, Disassembly.Reaches t bytecode 0 offset ∧
        Disassembly.Defective t bytecode stack offset) := by
  refine ⟨Disassembly.sweep?_eq _ bytecode 0, fun ds h => ?_,
    Disassembly.exists_error_decodeCode_iff (s := ⟨t, stack, bytecode.length⟩) 0 rfl⟩
  obtain ⟨htiles, hbytes, hresolved⟩ := Disassembly.spec_of_decodeCode h
  rw [Nat.zero_add] at htiles
  exact ⟨htiles, hbytes, hresolved⟩

def backJump : Bytes := [11, 4, 0, 0, 0, 49, 246, 255, 255, 255]

def backJumpStack : Bytes := [0, 0, 0, 0, 104, 105, 0]

def backJumpCode : List DecodedInstruction :=
  [⟨0, .getString, [.text 4 "hi"]⟩, ⟨5, .jump, [.jump (-10) 0]⟩]

/-- The whole of the bytecode is read; without its last bytes the jump crosses the end. -/
theorem disassemble_backJump :
    disassemble .v1 backJump backJumpStack = .ok backJumpCode ∧
      (Tiles (·.offset) (·.opcode.encodedSize) 0 backJumpCode backJump.length ∧
        backJumpCode.flatMap (·.bytes .v1) = backJump ∧
        ∀ d ∈ backJumpCode, d.Resolved backJumpStack backJump.length) ∧
      Disassembly.Reaches .v1 (backJump.take 7) 0 5 ∧
      Disassembly.Defective .v1 (backJump.take 7) backJumpStack 5 ∧
      ∃ e, disassemble .v1 (backJump.take 7) backJumpStack = .error e := by
  have hread : disassemble .v1 backJump backJumpStack = .ok backJumpCode :=
    eq_ok_of_toOption (by decide +kernel)
  have htext : Disassembly.opcodeAt? .v1 (backJump.take 7) 0 = some .getString := by decide
  have hjump : Disassembly.opcodeAt? .v1 (backJump.take 7) 5 = some .jump := by decide
  have hreaches : Disassembly.Reaches .v1 (backJump.take 7) 0 5 :=
    .step htext (by decide) (.refl 5)
  have hdefective : Disassembly.Defective .v1 (backJump.take 7) backJumpStack 5 :=
    .crossing hjump (by decide)
  exact ⟨hread, (disassemble_spec .v1 backJump backJumpStack).2.1 _ hread, hreaches, hdefective,
    (disassemble_spec .v1 (backJump.take 7) backJumpStack).2.2.2 ⟨5, hreaches, hdefective⟩⟩

end Gsc
