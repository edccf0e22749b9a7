import Gsc.Proofs.Image.Defects
import Gsc.Proofs.Lowering.Evaluation

/-! # Integers in the code

An integer is written as a literal or as a minus in front of the opposite literal. Either way it
becomes one instruction, no other instruction that pushes the integer is shorter, and reading an
image gives the integer back. An integer of more than 32 bits becomes a finding and no instruction.
-/

namespace Gsc

/-- The expression is the literal of an integer, or a minus in front of the opposite one. -/
inductive Expr.Writes (v : Int64) : Expr → Prop
  | literal (span : Span) : Writes v (.int span v)
  | negated (span inner : Span) {value : Int64} (h : value.toInt = -v.toInt) :
      Writes v (.unary span .neg (.int inner value))

def DecodedInstruction.constant? (d : DecodedInstruction) : Option Int :=
  match d.opcode, d.operands with
  | .getZero, [] => some 0
  | .getByte, [.byte v] => some v.toNat
  | .getNegByte, [.byte v] => some (-v.toNat)
  | .getUnsignedShort, [.short v] => some v.toNat
  | .getNegUnsignedShort, [.short v] => some (-v.toNat)
  | .getInteger, [.int v] => some v.toInt
  | _, _ => none

/-! ## The shortest instruction -/

def pushSize (v : Int) : Nat :=
  if v = 0 then 1 else if v.natAbs ≤ 255 then 2 else if v.natAbs ≤ 65535 then 3 else 5

theorem pushSize_le_two {v : Int} (h : v.natAbs ≤ 255) : pushSize v ≤ 2 := by
  unfold pushSize
  rw [if_pos h]
  split <;> omega

theorem pushSize_le_three {v : Int} (h : v.natAbs ≤ 65535) : pushSize v ≤ 3 := by
  unfold pushSize
  rw [if_pos h]
  repeat' split
  all_goals omega

theorem pushSize_le_five (v : Int) : pushSize v ≤ 5 := by
  unfold pushSize
  repeat' split
  all_goals omega

/-- No instruction that pushes the integer is shorter. -/
theorem Instruction.pushSize_le {i : Instruction} {v : Int} (h : i.constant? = some v) :
    pushSize v ≤ i.opcode.encodedSize := by
  cases pushes_of_constant? h with
  | zero => decide
  | byte n | negByte n =>
      have hn := n.toNat_lt
      exact pushSize_le_two (by omega)
  | short n | negShort n =>
      have hn := n.toNat_lt
      exact pushSize_le_three (by omega)
  | int n => exact pushSize_le_five _

namespace Draft

theorem emitWith_inj {d : Draft} {opcode opcode' : Opcode} {operands operands' : List Operand}
    (h : d.emitWith opcode operands = d.emitWith opcode' operands') : opcode = opcode' := by
  simp only [emitWith, Draft.mk.injEq, Array.push_eq_push, Instruction.mk.injEq] at h
  exact h.1.1.1

theorem emitWith_ne_report {d : Draft} {opcode : Opcode} {operands : List Operand}
    {defect : Defect} {span : Span} : d.emitWith opcode operands ≠ d.report defect span := by
  intro h
  have hsize := congrArg (·.code.size) h
  simp [emitWith, report] at hsize

theorem encodedSize_of_pushInt {d : Draft} {value : Int64} {span : Span} {i : Instruction}
    (h : d.pushInt value span = d.emitWith i.opcode i.operands) :
    i.opcode.encodedSize = pushSize value.toInt := by
  unfold pushInt at h
  dsimp only at h
  unfold pushSize
  split at h
  · rw [← emitWith_inj h, if_pos ‹_›]
    rfl
  · rw [if_neg ‹_›]
    split at h
    · rw [← emitWith_inj h, if_pos (by omega)]
      rfl
    · split at h
      · rw [← emitWith_inj h, if_pos (by omega)]
        rfl
      · rw [if_neg (by omega)]
        split at h
        · rw [← emitWith_inj h, if_pos (by omega)]
          rfl
        · split at h
          · rw [← emitWith_inj h, if_pos (by omega)]
            rfl
          · rw [if_neg (by omega)]
            split at h
            · rw [← emitWith_inj h]
              rfl
            · exact (emitWith_ne_report h.symm).elim

theorem pushInt_of_isWord {value : Int64} (hv : IsWord value.toInt) (d : Draft) (span : Span) :
    ∃ i : Instruction, d.pushInt value span = d.emitWith i.opcode i.operands ∧
      i.constant? = some value.toInt ∧ i.opcode.encodedSize = pushSize value.toInt := by
  rcases d.pushInt_cases value span with ⟨i, hi, heq⟩ | ⟨hwide, -⟩
  · exact ⟨i, heq, hi, encodedSize_of_pushInt heq⟩
  · exact (hwide hv).elim

theorem pushInt_of_not_isWord {value : Int64} (hv : ¬ IsWord value.toInt) (d : Draft)
    (span : Span) : d.pushInt value span = d.report (.integerTooWide value.toInt) span := by
  rcases d.pushInt_cases value span with ⟨i, hi, -⟩ | ⟨-, heq⟩
  · exact (hv (Instruction.isWord_of_constant? hi)).elim
  · exact heq

end Draft

/-- Both ways to write an integer push it. -/
theorem Expr.Writes.lower_eq {v : Int64} {e : Expr} (h : e.Writes v) (scope : Scope) (d : Draft) :
    e.lower scope d = d.pushInt v e.span := by
  cases h with
  | literal span => rw [Expr.lower, Expr.span]
  | @negated span inner value h =>
      have hneg : -value = v := by
        apply Int64.toInt_inj.1
        have hlo := v.le_toInt
        have hhi := v.toInt_lt
        rw [Int64.toInt_neg, h, Int.neg_neg]
        exact Int.bmod_eq_of_le (by omega) (by omega)
      rw [Expr.lower, hneg, Expr.span]

/-! ## Through an image -/

/-- The instruction keeps no program from being assembled, and wherever an image holds it, the
integer is read back. -/
structure Instruction.Carries (i : Instruction) (v : Int) : Prop where
  assembles : ∀ (p : Program) (t : OpcodeTable), p.bytecodeSize ≤ regionLimit →
    p.stackSize ≤ regionLimit →
    (∀ r ∈ p.routines, StringPool.hasNul r.name = false ∧ ∀ j ∈ r.code, j ≠ i → j.Encodable r) →
      ∃ image, p.assemble t = .ok image
  readsBack : ∀ (p : Program) (t : OpcodeTable) (image : Image), p.assemble t = .ok image →
    ∃ fs, disassembleFunctions t image.bytecode image.stack = .ok fs ∧
      ∀ (k index : Nat) (r : Routine), p.routines[k]? = some r → r.code[index]? = some i →
        ∃ f d, fs[k]? = some f ∧ f.code[index]? = some d ∧ d.constant? = some v

section

variable {image : Image} {r : Routine} {start : Nat} {ds : List DecodedOperand}

theorem Operand.eq_byte_of_readsAs {v : UInt8}
    (h : List.Forall₂ (ReadsAs image r start) [.byte v] ds) : ds = [.byte v] := by
  obtain ⟨d, _, hd, hnil, rfl⟩ := List.forall₂_cons_left_iff.1 h
  rw [List.forall₂_nil_left_iff.1 hnil]
  cases d with
  | byte w => rw [show w = v from hd]
  | _ => cases hd

theorem Operand.eq_short_of_readsAs {v : UInt16}
    (h : List.Forall₂ (ReadsAs image r start) [.short v] ds) : ds = [.short v] := by
  obtain ⟨d, _, hd, hnil, rfl⟩ := List.forall₂_cons_left_iff.1 h
  rw [List.forall₂_nil_left_iff.1 hnil]
  cases d with
  | short w => rw [show w = v from hd]
  | _ => cases hd

theorem Operand.eq_int_of_readsAs {v : Int32}
    (h : List.Forall₂ (ReadsAs image r start) [.int v] ds) : ds = [.int v] := by
  obtain ⟨d, _, hd, hnil, rfl⟩ := List.forall₂_cons_left_iff.1 h
  rw [List.forall₂_nil_left_iff.1 hnil]
  cases d with
  | int w => rw [show w = v from hd]
  | _ => cases hd

end

theorem Instruction.ReadsAs.constant?_eq {image : Image} {r : Routine} {start offset : Nat}
    {i : Instruction} {d : DecodedInstruction} {v : Int} (h : i.ReadsAs image r start offset d)
    (hi : i.constant? = some v) : d.constant? = some v := by
  obtain ⟨-, hopcode, hoperands⟩ := h
  unfold DecodedInstruction.constant?
  rw [hopcode]
  cases pushes_of_constant? hi with
  | zero => rw [List.forall₂_nil_left_iff.1 hoperands]
  | byte v | negByte v => rw [Operand.eq_byte_of_readsAs hoperands]
  | short v | negShort v => rw [Operand.eq_short_of_readsAs hoperands]
  | int v => rw [Operand.eq_int_of_readsAs hoperands]

theorem Instruction.carries_of_constant? {i : Instruction} {v : Int} (hi : i.constant? = some v) :
    i.Carries v := by
  constructor
  · intro p t hb hs hothers
    refine p.exists_assemble hb hs fun r hr => ⟨(hothers r hr).1, fun j hj => ?_⟩
    by_cases hj' : j = i
    · rw [hj']
      exact Instruction.sound_of_constant? hi
    · exact (hothers r hr).2 j hj hj'
  · intro p t image himage
    obtain ⟨names, first, final, hassembled⟩ := p.assembled_of_assemble himage
    obtain ⟨fs, hfs, hreads, -⟩ := hassembled.readsBack
    refine ⟨fs, hfs, fun k index r hr hcode => ?_⟩
    obtain ⟨f, hf, hread⟩ := exists_getElem?_of_forall₂ hreads hr
    obtain ⟨d, hd, hsame⟩ := hread.instruction index i hcode
    exact ⟨f, d, hf, hd, hsame.constant?_eq hi⟩

/-- Later instructions do not move an earlier one. -/
theorem Draft.Extends.code_toRoutine {d later : Draft} {index : Nat} {i : Instruction}
    (h : d.Extends later) (hi : d.code.toList[index]? = some i) (hpos : 0 < index) (name : String)
    (params : Nat) : (later.toRoutine name params).code[index]? = some i := by
  obtain ⟨k, rfl⟩ : ∃ k, index = k + 1 := ⟨index - 1, by omega⟩
  rw [Draft.toRoutine, List.getElem?_cons_succ, List.getElem?_drop, Nat.add_comm]
  exact getElem?_of_prefix h.code hi

/-- An integer of 32 bits adds one instruction to the code of a function, where it stays. No other
instruction that pushes the integer is shorter, and an image gives the integer back. Any other
integer adds one finding and nothing else. -/
theorem Expr.lower_integer {v : Int64} {e : Expr} (h : e.Writes v) (scope : Scope) (d : Draft) :
    (IsWord v.toInt → ∃ i : Instruction,
      e.lower scope d = { d with code := d.code.push i } ∧
      (∀ later name params, (e.lower scope d).Extends later → 0 < d.code.size →
        (later.toRoutine name params).code[d.code.size]? = some i) ∧
      i.Carries v.toInt ∧
      ∀ j : Instruction, j.constant? = some v.toInt →
        i.opcode.encodedSize ≤ j.opcode.encodedSize) ∧
    (¬ IsWord v.toInt →
      e.lower scope d =
        { d with findings := d.findings.push ⟨.integerTooWide v.toInt, e.span⟩ }) := by
  rw [h.lower_eq scope d]
  constructor
  · intro hv
    obtain ⟨i, heq, hi, hsize⟩ := Draft.pushInt_of_isWord hv d e.span
    refine ⟨i, heq, ?_, Instruction.carries_of_constant? hi, ?_⟩
    · intro later name params hlater hpos
      rw [heq] at hlater
      exact hlater.code_toRoutine (by simp [Draft.emitWith]) hpos name params
    · intro j hj
      rw [hsize]
      exact Instruction.pushSize_le hj
  · exact fun hv => Draft.pushInt_of_not_isWord hv d e.span

/-- The least integer of 32 bits: a minus in front of a literal that does not fit itself. -/
def leastWord : Expr := .unary ⟨0, 11⟩ .neg (.int ⟨1, 11⟩ 2147483648)

theorem lower_leastWord :
    leastWord.Writes (-2147483648) ∧ IsWord (-2147483648) ∧
      ∃ i : Instruction, leastWord.lower ⟨[]⟩ .empty = { Draft.empty with code := #[i] } ∧
        i.Carries (-2147483648) ∧
        ∀ j : Instruction, j.constant? = some (-2147483648) →
          i.opcode.encodedSize ≤ j.opcode.encodedSize := by
  have hw : leastWord.Writes (-2147483648) := .negated _ _ (by decide)
  have hv : IsWord (-2147483648) := by decide
  obtain ⟨i, hlower, -, hcarries, hshortest⟩ := (Expr.lower_integer hw ⟨[]⟩ .empty).1 hv
  exact ⟨hw, hv, i, hlower, hcarries, hshortest⟩

end Gsc
