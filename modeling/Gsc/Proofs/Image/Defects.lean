import Gsc.Proofs.Image.Assembling

/-! # The first defect of a program

The defects of a program have an order: names of functions, then routine by routine the wrong
operands before the strings and labels. A program whose regions are within the limit has an image
exactly if it has no defect, and otherwise the first one is what assembling reports.
-/

namespace Gsc

/-! ## Defects in order -/

instance Routine.decidableBound (r : Routine) (l : Nat) : Decidable (r.Bound l) :=
  decidable_of_iff (∃ i ∈ r.target? l, i ≤ r.code.length) (by simp [Bound, and_comm])

def nulDefect? (s : String) : Option AssembleError :=
  if StringPool.hasNul s then some (.nulInString s) else none

def Instruction.mismatch? (function : String) (i : Instruction) : Option AssembleError :=
  let found := i.operands.map Operand.kind
  if i.opcode.operands = found then none else some (.operandMismatch function i.opcode found)

/-- A string that would end early or a label that leads nowhere. -/
def Operand.defect? (r : Routine) : Operand → Option AssembleError
  | .text s => nulDefect? s
  | .label l => if r.Bound l then none else some (.unboundLabel r.name l)
  | _ => none

/-- The defects of a routine. All wrong operands come before any string or label. -/
def Routine.defects (r : Routine) : List AssembleError :=
  r.code.filterMap (·.mismatch? r.name)
    ++ r.code.flatMap fun i => i.operands.filterMap (·.defect? r)

/-- The defects of a program. The names of all functions come first. -/
def Program.defects (p : Program) : List AssembleError :=
  p.routines.filterMap (fun r => nulDefect? r.name) ++ p.routines.flatMap Routine.defects

/-! ## Programs without defects -/

theorem nulDefect?_eq_none_iff {s : String} :
    nulDefect? s = none ↔ StringPool.hasNul s = false := by
  simp [nulDefect?]

theorem Instruction.mismatch?_eq_none_iff {function : String} {i : Instruction} :
    i.mismatch? function = none ↔ i.opcode.operands = i.operands.map Operand.kind := by
  simp [mismatch?]

theorem Operand.defect?_eq_none_iff {r : Routine} {o : Operand} :
    o.defect? r = none ↔ o.Within (StringPool.hasNul · = false) r.Bound := by
  cases o with
  | text s => exact nulDefect?_eq_none_iff
  | label l => simp [defect?, Within]
  | _ => simp [defect?, Within]

theorem Routine.defects_eq_nil_iff {r : Routine} :
    r.defects = [] ↔ ∀ i ∈ r.code, i.Encodable r := by
  simp only [defects, List.append_eq_nil_iff, List.filterMap_eq_nil_iff, List.flatMap_eq_nil_iff,
    Instruction.mismatch?_eq_none_iff, Operand.defect?_eq_none_iff]
  exact ⟨fun h i hi => ⟨h.1 i hi, h.2 i hi⟩, fun h => ⟨fun i hi => (h i hi).kinds,
    fun i hi => (h i hi).within⟩⟩

theorem Program.defects_eq_nil_iff {p : Program} : p.defects = [] ↔ p.Encodable := by
  simp only [defects, List.append_eq_nil_iff, List.filterMap_eq_nil_iff, List.flatMap_eq_nil_iff,
    nulDefect?_eq_none_iff, Routine.defects_eq_nil_iff]
  exact ⟨fun h r hr => ⟨h.1 r hr, h.2 r hr⟩, fun h => ⟨fun r hr => (h r hr).1,
    fun r hr => (h r hr).2⟩⟩

/-! ## What encoding reports -/

namespace Assembly

theorem distance_of_not_bound {r : Routine} {l : Nat} (stop : Nat) (h : ¬ r.Bound l) :
    Assembly.distance r stop l = .error (.error (.unboundLabel r.name l)) := by
  have hnone : (r.target? l).bind (offset? r.code) = none := by
    rw [Option.bind_eq_none_iff]
    intro i hi
    exact if_neg fun hle => h ⟨i, hle, hi⟩
  rw [Assembly.distance, hnone]

theorem reports_checkCode (function : String) (code : List Instruction) :
    Reports (code.filterMap (·.mismatch? function)) (checkCode function code) := by
  induction code with
  | nil => exact .ok ()
  | cons i code ih =>
      by_cases hk : i.opcode.operands = i.operands.map Operand.kind
      · have hnone : i.mismatch? function = none := Instruction.mismatch?_eq_none_iff.2 hk
        rw [List.filterMap_cons_none hnone, checkCode, if_pos hk]
        exact ih
      · have hsome : i.mismatch? function
            = some (.operandMismatch function i.opcode (i.operands.map Operand.kind)) := if_neg hk
        rw [List.filterMap_cons_some hsome, checkCode, if_neg hk]
        rfl

section Reports

variable {t : OpcodeTable} {r : Routine} {pool : StringPool} {all : Finset String}

theorem reports_intern (s : String) (hw : pool.Within all) :
    Reports (nulDefect? s).toList (intern pool s) := by
  cases hs : StringPool.hasNul s with
  | false =>
      rw [nulDefect?_eq_none_iff.2 hs]
      obtain ⟨offset, hoffset⟩ := hw.exists_intern hs
      refine ⟨(offset, (pool.intern s).2), ?_⟩
      unfold intern
      split
      · rename_i hi
        rw [hi] at hoffset ⊢
        cases hoffset
        rfl
      · rename_i hi
        rw [hi] at hoffset
        cases hoffset
  | true =>
      -- no string of the pool ends early, so this one is not among them
      have hnew : pool.cache.get? s = none := by
        rw [hw.faithful.get?_eq_none_iff, StringPool.place?_eq_none_iff]
        intro hmem
        rw [hw.faithful.clean s hmem] at hs
        cases hs
      have herror : intern pool s = .error (.error (.nulInString s)) := by
        simp [intern, StringPool.intern, hnew, hs, Fault.map, refused]
      rw [nulDefect?, if_pos hs]
      exact herror

theorem reports_internAll {strings : List String} (hw : pool.Within all)
    (hmem : ∀ s ∈ strings, s ∈ all) :
    Reports (strings.filterMap nulDefect?) (internAll pool strings) := by
  induction strings generalizing pool with
  | nil => exact .ok _
  | cons s strings ih =>
      simp only [List.forall_mem_cons] at hmem
      rw [filterMap_cons_eq_append]
      refine (reports_intern s hw).bind fun interned h₁ => ?_
      obtain ⟨offset, pool₁⟩ := interned
      have hw₁ := hw.takes (takes_of_intern h₁) (by simpa using hmem.1)
      exact (ih hw₁ hmem.2).bind_ok fun result => (offset :: result.1, result.2)

variable (hfit : sizeOf r.code ≤ regionLimit)

include hfit

theorem reports_encodeOperand {stop : Nat} (operand : Operand) (hstop : stop ≤ sizeOf r.code)
    (hw : pool.Within all) :
    Reports (operand.defect? r).toList (encodeOperand r stop pool operand) := by
  cases operand with
  | text s =>
      exact (reports_intern s hw).bind_ok fun result => (Stack.word result.1, result.2)
  | label l =>
      by_cases hl : r.Bound l
      · rw [Operand.defect?, if_pos hl]
        obtain ⟨distance, hd⟩ := distance_eq_ok hl hfit hstop
        exact ⟨_, bind_eq_ok.2 ⟨distance, hd, rfl⟩⟩
      · rw [Operand.defect?, if_neg hl, encodeOperand, distance_of_not_bound stop hl]
        rfl
  | _ => exact ⟨_, rfl⟩

theorem reports_encodeOperands {stop : Nat} {operands : List Operand}
    (hstop : stop ≤ sizeOf r.code) (hw : pool.Within all)
    (hmem : ∀ s ∈ operands.filterMap Operand.text?, s ∈ all) :
    Reports (operands.filterMap (·.defect? r)) (encodeOperands r stop pool operands) := by
  induction operands generalizing pool with
  | nil => exact .ok _
  | cons operand operands ih =>
      rw [filterMap_cons_eq_append] at hmem ⊢
      simp only [List.mem_append, or_imp, forall_and] at hmem
      refine (reports_encodeOperand hfit operand hstop hw).bind fun encoded h₁ => ?_
      obtain ⟨front, pool₁⟩ := encoded
      have hw₁ := hw.takes (takes_of_encodeOperand h₁) hmem.1
      exact (ih hw₁ hmem.2).bind_ok fun result => (front ++ result.1, result.2)

theorem reports_encodeCode {code : List Instruction} {offset : Nat}
    (hplace : offset + sizeOf code ≤ sizeOf r.code) (hw : pool.Within all)
    (hmem : ∀ s ∈ code.flatMap Instruction.texts, s ∈ all) :
    Reports (code.flatMap fun i => i.operands.filterMap (·.defect? r))
      (encodeCode t r offset pool code) := by
  induction code generalizing offset pool with
  | nil => exact .ok _
  | cons i code ih =>
      simp only [List.flatMap_cons, List.mem_append, or_imp, forall_and] at hmem
      rw [sizeOf, ← Nat.add_assoc] at hplace
      have hstop := Nat.le_trans (Nat.le_add_right _ _) hplace
      rw [List.flatMap_cons]
      refine (reports_encodeOperands hfit hstop hw hmem.1).bind fun encoded h₁ => ?_
      obtain ⟨front, pool₁⟩ := encoded
      have hw₁ := hw.takes (takes_of_encodeOperands h₁) hmem.1
      exact (ih hplace hw₁ hmem.2).bind_ok
        fun result => (t.byte i.opcode :: front ++ result.1, result.2)

theorem reports_encodeRoutine (hw : pool.Within all)
    (hmem : ∀ s ∈ r.code.flatMap Instruction.texts, s ∈ all) :
    Reports r.defects (encodeRoutine t pool r) :=
  (reports_checkCode r.name r.code).bind fun _ _ =>
    reports_encodeCode hfit (Nat.le_of_eq (Nat.zero_add _)) hw hmem

omit hfit

theorem reports_encodeRoutines {routines : List Routine} {offset : Nat}
    (hfit : offset + (routines.map fun r => sizeOf r.code).sum ≤ regionLimit)
    (hw : pool.Within all)
    (hmem : ∀ s ∈ routines.flatMap fun r => r.code.flatMap Instruction.texts, s ∈ all) :
    Reports (routines.flatMap Routine.defects) (encodeRoutines t offset pool routines) := by
  induction routines generalizing offset pool with
  | nil => exact .ok _
  | cons r routines ih =>
      simp only [List.flatMap_cons, List.mem_append, or_imp, forall_and] at hmem
      rw [List.map_cons, List.sum_cons] at hfit
      rw [List.flatMap_cons]
      refine (reports_encodeRoutine (by omega) hw hmem.1).bind fun encoded h₁ => ?_
      obtain ⟨code, pool₁⟩ := encoded
      obtain ⟨-, hcode, -, hlength⟩ := encodeRoutine_spec h₁
      have hw₁ := hw.takes (takes_of_encodeCode hcode) hmem.1
      have hnext : offset + code.length + (routines.map fun r => sizeOf r.code).sum ≤ regionLimit :=
        by omega
      have hoffset : offset ≤ regionLimit := by omega
      have hsize : code.length ≤ regionLimit := by omega
      dsimp only
      rw [checkSize_of_le .bytecode hoffset, checkSize_of_le .bytecode hsize]
      exact (ih hnext hw₁ hmem.2).bind_ok fun result => (code ++ result.1,
        ⟨r.name, offset.toUInt32, code.length.toUInt32⟩ :: result.2.1, result.2.2)

end Reports

end Assembly

/-! ## Programs -/

namespace Program

variable {p : Program} {t : OpcodeTable}

/-- A program of a fitting size gives the first of its defects, or an image if it has none. -/
theorem reports_assemble (hb : p.bytecodeSize ≤ regionLimit) (hs : p.stackSize ≤ regionLimit) :
    Reports p.defects (p.assemble t) := by
  have hheader := Assembly.checkSize_of_le .stack (Nat.le_trans (Nat.le_add_right _ _) hs)
  have hempty : (StringPool.empty (Stack.headerSize p.routines.length).toUInt32).Within
      p.strings.toFinset := by
    refine ⟨StringPool.faithful_empty _, fun s h => absurd h List.not_mem_nil, ?_⟩
    have hbase := Assembly.toNat_of_checkSize hheader
    exact Nat.le_trans (Nat.le_of_eq (congrArg (· + _) hbase)) hs
  have hmem : ∀ s ∈ p.strings, s ∈ p.strings.toFinset := fun s => List.mem_toFinset.2
  simp only [strings, List.mem_append, or_imp, forall_and] at hmem
  have hnames := Assembly.reports_internAll hempty hmem.1
  rw [List.filterMap_map] at hnames
  rw [assemble, hheader]
  refine hnames.bind fun named hfirst => ?_
  obtain ⟨names, first⟩ := named
  have hheld := (Assembly.internAll_spec hfirst).2
  have hw := hempty.takes (Assembly.takes_of_internAll hfirst) hmem.1
  have hsum : 0 + (p.routines.map fun r => Assembly.sizeOf r.code).sum ≤ regionLimit := by
    rwa [Nat.zero_add]
  have hcode := Assembly.reports_encodeRoutines (t := t) hsum hw hmem.2
  refine hcode.bind_of_ok fun encoded hfinal => ?_
  obtain ⟨bytecode, functions, final⟩ := encoded
  -- an image is as long as was counted
  obtain ⟨htakes, hlength⟩ := Assembly.takes_of_encodeRoutines hfinal
  have hcount := (Assembly.encodeRoutines_spec hfinal).2
  have hpaired : names.length = functions.length := by
    rw [← hheld.length_eq, List.length_map, hcount]
  have hstack : (Stack.write functions names final).length ≤ regionLimit := by
    rw [Stack.length_write hpaired, hcount]
    exact Nat.le_trans (Nat.add_le_add_left (hw.takes htakes hmem.2).size_le _) hs
  have hbytes : bytecode.length ≤ regionLimit := by rwa [hlength]
  exact ⟨_, bind_eq_ok.2 ⟨_, Assembly.checkSize_of_le .bytecode hbytes,
    bind_eq_ok.2 ⟨_, Assembly.checkSize_of_le .stack hstack, rfl⟩⟩⟩

theorem exists_assemble (hb : p.bytecodeSize ≤ regionLimit) (hs : p.stackSize ≤ regionLimit)
    (h : p.Encodable) : ∃ image, p.assemble t = .ok image := by
  have hreports := reports_assemble (t := t) hb hs
  rw [defects_eq_nil_iff.2 h] at hreports
  exact hreports

end Program

/-- A program whose regions are within the limit has an image exactly if its strings do not end
early, its operands are those of its opcodes and its labels are bound. Any other program is refused
for the first of its defects. -/
theorem assemble_reports_first (p : Program) (t : OpcodeTable)
    (hb : p.bytecodeSize ≤ regionLimit) (hs : p.stackSize ≤ regionLimit) :
    ((∃ image, p.assemble t = .ok image) ↔ p.Encodable) ∧
      ∀ fault, p.assemble t = .error fault ↔ p.defects.head?.map .error = some fault := by
  refine ⟨⟨?_, p.exists_assemble hb hs⟩, (p.reports_assemble hb hs).eq_error_iff⟩
  rintro ⟨image, himage⟩
  exact (p.spec_of_assemble himage).1

/-- A string that ends early, a label bound behind the code, a wrong operand behind both, and a
label that is not there. -/
def manyDefects : Program where
  name := "defects"
  includes := []
  animtree := none
  routines :=
    [⟨"a", 0, [], [⟨.getString, [.text "x\x00"]⟩, ⟨.jump, [.label 0]⟩, ⟨.finish, [.byte 1]⟩],
        [some 4]⟩,
      ⟨"b", 0, [], [⟨.jump, [.label 7]⟩], []⟩]

theorem assemble_manyDefects :
    manyDefects.bytecodeSize ≤ regionLimit ∧ manyDefects.stackSize ≤ regionLimit ∧
      manyDefects.defects =
        [.operandMismatch "a" .finish [.byte], .nulInString "x\x00", .unboundLabel "a" 0,
          .unboundLabel "b" 7] ∧
      manyDefects.assemble .v1 = .error (.error (.operandMismatch "a" .finish [.byte])) := by
  have hb : manyDefects.bytecodeSize ≤ regionLimit := by decide +kernel
  have hs : manyDefects.stackSize ≤ regionLimit := by decide +kernel
  have hdefects : manyDefects.defects =
      [.operandMismatch "a" .finish [.byte], .nulInString "x\x00", .unboundLabel "a" 0,
        .unboundLabel "b" 7] := by
    decide +kernel
  refine ⟨hb, hs, hdefects, ((assemble_reports_first manyDefects .v1 hb hs).2 _).2 ?_⟩
  rw [hdefects]
  rfl

end Gsc
