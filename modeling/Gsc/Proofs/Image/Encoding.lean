import Gsc.Image.Assembly
import Gsc.Proofs.Except
import Gsc.Proofs.Image.StringPool
import Gsc.Proofs.Lists

/-! # What encoding writes

Every part of a program takes as many bytes as its opcodes and operands say, and the pool only
grows while they are written.
-/

namespace Gsc.Assembly

/-! ## Offsets -/

theorem sizeOf_append (front back : List Instruction) :
    sizeOf (front ++ back) = sizeOf front + sizeOf back := by
  induction front with
  | nil => simp [sizeOf]
  | cons i front ih =>
      simp only [List.cons_append, sizeOf, ih]
      omega

theorem sizeOf_take_le (code : List Instruction) (index : Nat) :
    sizeOf (code.take index) ≤ sizeOf code := by
  have h := sizeOf_append (code.take index) (code.drop index)
  rw [List.take_append_drop] at h
  omega

theorem sizeOf_take_succ {code : List Instruction} {index : Nat} {i : Instruction}
    (h : code[index]? = some i) :
    sizeOf (code.take (index + 1)) = sizeOf (code.take index) + i.opcode.encodedSize := by
  rw [List.take_add_one, h, sizeOf_append]
  simp [sizeOf]

theorem checkSize_eq_ok {region : Region} {size : Nat} {word : UInt32}
    (h : checkSize region size = .ok word) : size ≤ regionLimit ∧ word = size.toUInt32 := by
  unfold checkSize at h
  split at h
  · cases h
    exact ⟨‹_›, rfl⟩
  · cases h

theorem toNat_of_checkSize {region : Region} {size : Nat} {word : UInt32}
    (h : checkSize region size = .ok word) : word.toNat = size := by
  obtain ⟨hs, rfl⟩ := checkSize_eq_ok h
  simp only [Nat.toUInt32_eq, UInt32.toNat_ofNat', regionLimit] at *
  omega

theorem checkCode_eq_ok {function : String} {code : List Instruction}
    (h : checkCode function code = .ok ()) :
    ∀ i ∈ code, i.opcode.operands = i.operands.map Operand.kind := by
  induction code with
  | nil =>
      intro i hi
      cases hi
  | cons i rest ih =>
      simp only [checkCode] at h
      split at h
      · rename_i hk
        intro j hj
        rcases List.mem_cons.1 hj with rfl | hj
        · exact hk
        · exact ih h j hj
      · cases h

/-! ## Pools -/

theorem intern_eq_ok {pool pool' : StringPool} {s : String} {offset : UInt32}
    (h : intern pool s = .ok (offset, pool')) : pool.intern s = (.ok offset, pool') := by
  unfold intern at h
  split at h
  · rename_i hi
    cases h
    exact hi
  · cases h

theorem intern_spec {pool pool' : StringPool} {s : String} {offset : UInt32}
    (h : intern pool s = .ok (offset, pool')) : pool.Grows pool' ∧ pool'.Holds s offset := by
  have hi := intern_eq_ok h
  have hgrows := pool.grows_intern s
  have hholds := StringPool.holds_of_intern (congrArg Prod.fst hi)
  rw [hi] at hgrows hholds
  exact ⟨hgrows, hholds⟩

theorem internAll_cons_eq_ok {s : String} {strings : List String} {pool pool' : StringPool}
    {offsets : List UInt32} (h : internAll pool (s :: strings) = .ok (offsets, pool')) :
    ∃ offset pool₁ rest, intern pool s = .ok (offset, pool₁) ∧
      internAll pool₁ strings = .ok (rest, pool') ∧ offsets = offset :: rest := by
  rw [internAll] at h
  obtain ⟨⟨offset, pool₁⟩, h₁, h⟩ := bind_eq_ok.1 h
  obtain ⟨⟨rest, pool₂⟩, h₂, h⟩ := bind_eq_ok.1 h
  cases h
  exact ⟨offset, pool₁, rest, h₁, h₂, rfl⟩

theorem internAll_spec {strings : List String} {pool pool' : StringPool} {offsets : List UInt32}
    (h : internAll pool strings = .ok (offsets, pool')) :
    pool.Grows pool' ∧ List.Forall₂ pool'.Holds strings offsets := by
  induction strings generalizing pool offsets with
  | nil =>
      cases h
      exact ⟨.refl _, .nil⟩
  | cons s strings ih =>
      obtain ⟨offset, pool₁, rest, h₁, h₂, rfl⟩ := internAll_cons_eq_ok h
      obtain ⟨hg, hs⟩ := intern_spec h₁
      obtain ⟨hg', hall⟩ := ih h₂
      exact ⟨hg.trans hg', .cons (hs.grows hg') hall⟩

/-! ## Operands -/

/-- A distance leads to the offset of an instruction, or behind the last one, and fits a word. -/
theorem target_of_distance {r : Routine} {stop l : Nat} {d : Int}
    (h : distance r stop l = .ok d) :
    ∃ index ≤ r.code.length, r.target? l = some index ∧
      d = (sizeOf (r.code.take index) : Int) - stop ∧ -2147483648 ≤ d ∧ d ≤ 2147483647 := by
  unfold distance at h
  split at h
  · cases h
  · rename_i target ht
    obtain ⟨index, hindex, ho⟩ := Option.bind_eq_some_iff.1 ht
    unfold offset? at ho
    split at ho
    · rename_i hle
      cases ho
      dsimp only at h
      split at h
      · rename_i hrange
        cases h
        exact ⟨index, hle, hindex, rfl, hrange⟩
      · cases h
    · cases ho

theorem encodeOperand_spec {r : Routine} {stop : Nat} {pool pool' : StringPool}
    {operand : Operand} {bytes : Bytes}
    (h : encodeOperand r stop pool operand = .ok (bytes, pool')) :
    pool.Grows pool' ∧ bytes.length = operand.kind.width := by
  cases operand with
  | byte v | short v | int v | float v =>
      cases h
      exact ⟨.refl pool, by simp [Operand.kind, OperandKind.width]⟩
  | text s =>
      obtain ⟨⟨offset, pool₁⟩, hi, h⟩ := bind_eq_ok.1 h
      cases h
      exact ⟨(intern_spec hi).1, Bytes.length_ofNat 4 _⟩
  | label l =>
      obtain ⟨distance, -, h⟩ := bind_eq_ok.1 h
      cases h
      exact ⟨.refl pool, Bytes.length_ofNat 4 _⟩

theorem encodeOperands_cons_eq_ok {r : Routine} {stop : Nat} {operand : Operand}
    {operands : List Operand} {pool pool' : StringPool} {bytes : Bytes}
    (h : encodeOperands r stop pool (operand :: operands) = .ok (bytes, pool')) :
    ∃ front pool₁ back, encodeOperand r stop pool operand = .ok (front, pool₁) ∧
      encodeOperands r stop pool₁ operands = .ok (back, pool') ∧ bytes = front ++ back := by
  rw [encodeOperands] at h
  obtain ⟨⟨front, pool₁⟩, h₁, h⟩ := bind_eq_ok.1 h
  obtain ⟨⟨back, pool₂⟩, h₂, h⟩ := bind_eq_ok.1 h
  cases h
  exact ⟨front, pool₁, back, h₁, h₂, rfl⟩

theorem encodeOperands_spec {r : Routine} {stop : Nat} {operands : List Operand}
    {pool pool' : StringPool} {bytes : Bytes}
    (h : encodeOperands r stop pool operands = .ok (bytes, pool')) :
    pool.Grows pool' ∧ bytes.length = OperandKind.totalWidth (operands.map Operand.kind) := by
  induction operands generalizing pool bytes with
  | nil =>
      cases h
      exact ⟨.refl _, rfl⟩
  | cons operand operands ih =>
      obtain ⟨front, pool₁, back, h₁, h₂, rfl⟩ := encodeOperands_cons_eq_ok h
      obtain ⟨hg, hl⟩ := encodeOperand_spec h₁
      obtain ⟨hg', hl'⟩ := ih h₂
      refine ⟨hg.trans hg', ?_⟩
      rw [List.length_append, hl, hl', List.map_cons, OperandKind.totalWidth]

/-! ## Code -/

theorem encodeCode_cons_eq_ok {t : OpcodeTable} {r : Routine} {i : Instruction}
    {code : List Instruction} {offset : Nat} {pool pool' : StringPool} {bytes : Bytes}
    (h : encodeCode t r offset pool (i :: code) = .ok (bytes, pool')) :
    ∃ front pool₁ back,
      encodeOperands r (offset + i.opcode.encodedSize) pool i.operands = .ok (front, pool₁) ∧
      encodeCode t r (offset + i.opcode.encodedSize) pool₁ code = .ok (back, pool') ∧
      bytes = t.byte i.opcode :: front ++ back := by
  rw [encodeCode] at h
  obtain ⟨⟨front, pool₁⟩, h₁, h⟩ := bind_eq_ok.1 h
  obtain ⟨⟨back, pool₂⟩, h₂, h⟩ := bind_eq_ok.1 h
  cases h
  exact ⟨front, pool₁, back, h₁, h₂, rfl⟩

theorem encodeCode_spec {t : OpcodeTable} {r : Routine} {code : List Instruction} {offset : Nat}
    {pool pool' : StringPool} {bytes : Bytes}
    (hk : ∀ i ∈ code, i.opcode.operands = i.operands.map Operand.kind)
    (h : encodeCode t r offset pool code = .ok (bytes, pool')) :
    pool.Grows pool' ∧ bytes.length = sizeOf code := by
  induction code generalizing offset pool bytes with
  | nil =>
      cases h
      exact ⟨.refl _, rfl⟩
  | cons i code ih =>
      obtain ⟨front, pool₁, back, h₁, h₂, rfl⟩ := encodeCode_cons_eq_ok h
      obtain ⟨hg, hl⟩ := encodeOperands_spec h₁
      obtain ⟨hg', hl'⟩ := ih (fun j hj => hk j (List.mem_cons_of_mem i hj)) h₂
      refine ⟨hg.trans hg', ?_⟩
      rw [List.length_append, List.length_cons, hl, hl', sizeOf, Opcode.encodedSize,
        hk i List.mem_cons_self]
      omega

/-- A routine that has been encoded has the operands its opcodes ask for. -/
theorem encodeRoutine_spec {t : OpcodeTable} {r : Routine} {pool pool' : StringPool}
    {bytes : Bytes} (h : encodeRoutine t pool r = .ok (bytes, pool')) :
    (∀ i ∈ r.code, i.opcode.operands = i.operands.map Operand.kind) ∧
      encodeCode t r 0 pool r.code = .ok (bytes, pool') ∧ pool.Grows pool' ∧
      bytes.length = sizeOf r.code := by
  obtain ⟨⟨⟩, hc, h⟩ := bind_eq_ok.1 h
  have hk := checkCode_eq_ok hc
  exact ⟨hk, h, encodeCode_spec hk h⟩

/-- The entry of a routine says where its code stands. -/
theorem encodeRoutines_cons_eq_ok {t : OpcodeTable} {r : Routine} {routines : List Routine}
    {offset : Nat} {pool pool' : StringPool} {bytes : Bytes} {entries : List FunctionEntry}
    (h : encodeRoutines t offset pool (r :: routines) = .ok (bytes, entries, pool')) :
    ∃ front pool₁ start size back rest, encodeRoutine t pool r = .ok (front, pool₁) ∧
      start.toNat = offset ∧ size.toNat = front.length ∧
      encodeRoutines t (offset + front.length) pool₁ routines = .ok (back, rest, pool') ∧
      bytes = front ++ back ∧ entries = ⟨r.name, start, size⟩ :: rest := by
  rw [encodeRoutines] at h
  obtain ⟨⟨front, pool₁⟩, h₁, h⟩ := bind_eq_ok.1 h
  obtain ⟨start, hstart, h⟩ := bind_eq_ok.1 h
  obtain ⟨size, hsize, h⟩ := bind_eq_ok.1 h
  obtain ⟨⟨back, rest, pool₂⟩, h₂, h⟩ := bind_eq_ok.1 h
  cases h
  exact ⟨front, pool₁, start, size, back, rest, h₁, toNat_of_checkSize hstart,
    toNat_of_checkSize hsize, h₂, rfl, rfl⟩

theorem encodeRoutines_spec {t : OpcodeTable} {routines : List Routine} {offset : Nat}
    {pool pool' : StringPool} {bytes : Bytes} {entries : List FunctionEntry}
    (h : encodeRoutines t offset pool routines = .ok (bytes, entries, pool')) :
    pool.Grows pool' ∧ entries.length = routines.length := by
  induction routines generalizing offset pool bytes entries with
  | nil =>
      cases h
      exact ⟨.refl _, rfl⟩
  | cons r routines ih =>
      obtain ⟨front, pool₁, start, size, back, rest, h₁, -, -, h₂, rfl, rfl⟩ :=
        encodeRoutines_cons_eq_ok h
      obtain ⟨hg, hl⟩ := ih h₂
      obtain ⟨-, -, hg₁, -⟩ := encodeRoutine_spec h₁
      exact ⟨hg₁.trans hg, by rw [List.length_cons, List.length_cons, hl]⟩

end Gsc.Assembly
