import Gsc.Data.Toml.Parse
import Gsc.Machine.Opcode
import Gsc.Text.Basic

/-! # Opcode tables

A table gives each opcode the byte that stands for it. It is built from assignments, of which a
later one to the same opcode takes the place of an earlier one.
-/

namespace Gsc

/-- Why there is no table: a text is no document of one, or its assignments make none. -/
inductive TableError where
  | unreadable (error : Toml.Error)
  | unknownMnemonic (mnemonic : String)
  | missing (opcode : Opcode)
  | duplicateByte (byte : UInt8) (first second : Opcode)
  deriving DecidableEq, Repr

def TableError.message : TableError → String
  | unreadable error => "invalid opcode table: " ++ error.message
  | unknownMnemonic mnemonic => "unknown opcode mnemonic '" ++ mnemonic ++ "'"
  | missing op => "opcode table has no byte for " ++ op.mnemonic
  | duplicateByte byte first second =>
    "byte 0x" ++ Text.hex 2 byte.toNat ++ " is assigned to both " ++ first.mnemonic ++ " and "
      ++ second.mnemonic

/-- The bytes assigned so far, and the other way round what they stand for. -/
structure Numbering where
  /-- The byte of an opcode. -/
  byte? : Opcode → Option UInt8
  /-- The opcode that a byte stands for. -/
  holder? : UInt8 → Option Opcode
  holder?_eq_some_iff : ∀ byte op, holder? byte = some op ↔ byte? op = some byte

namespace Numbering

def empty : Numbering := ⟨fun _ => none, fun _ => none, by simp⟩

/-- Give a byte that stands for nothing to an opcode. The byte that the opcode had is free then. -/
def give (n : Numbering) (op : Opcode) (byte : UInt8) (free : n.holder? byte = none) :
    Numbering :=
  let old := n.byte? op
  { byte? := fun other => if other = op then some byte else n.byte? other
    holder? := fun b => if b = byte then some op else if old = some b then none else n.holder? b
    holder?_eq_some_iff := by
      have hfree : ∀ other, n.byte? other ≠ some byte := by
        intro other h
        rw [(n.holder?_eq_some_iff byte other).2 h] at free
        cases free
      intro b other
      have hn := n.holder?_eq_some_iff b
      grind }

/-- Assign a byte to an opcode, which gives up the byte it had. A byte that stands for another
opcode is refused. -/
def assign (n : Numbering) (op : Opcode) (byte : UInt8) : Except TableError Numbering :=
  match h : n.holder? byte with
  | none => .ok (n.give op byte h)
  | some first => if first = op then .ok n else .error (.duplicateByte byte first op)

/-- Make assignments one after the other, up to the first that is refused. -/
def assignAll (n : Numbering) : List (Opcode × UInt8) → Except TableError Numbering
  | [] => .ok n
  | (op, byte) :: rest =>
    match n.assign op byte with
    | .ok n => n.assignAll rest
    | .error e => .error e

end Numbering

/-- A byte for each opcode, and for each byte the opcode that it stands for. -/
structure OpcodeTable where
  version : String
  byte : Opcode → UInt8
  /-- The opcode that a byte stands for. -/
  opcode? : UInt8 → Option Opcode
  opcode?_eq_some_iff : ∀ b op, opcode? b = some op ↔ byte op = b

namespace OpcodeTable

/-- The table in which each opcode has its own number as its byte. -/
def v1 : OpcodeTable where
  version := "v1"
  byte := fun op => op.index.toUInt8
  opcode? := fun b => Opcode.all[b.toNat]?
  opcode?_eq_some_iff := by
    intro b op
    constructor
    · intro h
      obtain ⟨hi, rfl⟩ := List.getElem?_eq_some_iff.1 h
      rw [Opcode.index_getElem hi]
      simp
    · rintro rfl
      obtain ⟨hi, -⟩ := List.getElem?_eq_some_iff.1 op.getElem?_index
      have hcount : Opcode.all.length = 76 := rfl
      have hindex : op.index.toUInt8.toNat = op.index := by
        rw [Nat.toUInt8_eq, UInt8.toNat_ofNat']
        omega
      rw [hindex]
      exact op.getElem?_index

/-- The table of a numbering that leaves no opcode out. -/
def ofNumbering (version : String) (n : Numbering) : Except TableError OpcodeTable :=
  match h : Opcode.all.find? fun op => (n.byte? op).isNone with
  | some op => .error (.missing op)
  | none =>
    have assigned : ∀ op, (n.byte? op).isSome := by
      intro op
      have := List.find?_eq_none.1 h op op.mem_all
      simpa [Option.isSome_iff_ne_none] using this
    .ok
      { version
        byte := fun op => (n.byte? op).get (assigned op)
        opcode? := n.holder?
        opcode?_eq_some_iff := by
          intro b op
          rw [n.holder?_eq_some_iff]
          constructor
          · intro hb
            simp [hb]
          · rintro rfl
            exact (Option.some_get (assigned op)).symm }

def ofAssignments (version : String) (assignments : List (Opcode × UInt8)) :
    Except TableError OpcodeTable :=
  match Numbering.empty.assignAll assignments with
  | .ok n => ofNumbering version n
  | .error e => .error e

def readAssignments : List (String × UInt8) → Except TableError (List (Opcode × UInt8))
  | [] => .ok []
  | (mnemonic, byte) :: rest =>
    match Opcode.ofMnemonic? mnemonic with
    | none => .error (.unknownMnemonic mnemonic)
    | some op => (readAssignments rest).map ((op, byte) :: ·)

/-- The table that assignments to mnemonics make. All mnemonics are looked at first. -/
def ofMnemonics (version : String) (pairs : List (String × UInt8)) :
    Except TableError OpcodeTable :=
  match readAssignments pairs with
  | .ok assignments => ofAssignments version assignments
  | .error e => .error e

def readDocument (text : String) : Except Toml.Error (String × List (String × UInt8)) := do
  let entries ← Toml.parse text
  let version ← Toml.Entries.read entries "version" (.error (.missing "version"))
    (Toml.Value.asText "version")
  let bytes ← Toml.Entries.read entries "opcodes" (.error (.missing "opcodes"))
    (Toml.Value.asMap "opcodes" fun key v => (v.asNat key 256).map Nat.toUInt8)
  return (version, bytes)

def ofToml (text : String) : Except TableError OpcodeTable :=
  match readDocument text with
  | .ok (version, bytes) => ofMnemonics version bytes
  | .error e => .error (.unreadable e)

end OpcodeTable

end Gsc
