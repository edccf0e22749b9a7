import Gsc.Proofs.Image.RoundTrip
import Gsc.Proofs.Lowering.Operands
import Mathlib.Algebra.BigOperators.Group.Finset.Basic
import Mathlib.Algebra.GroupWithZero.Nat
import Mathlib.Algebra.Order.BigOperators.Group.Finset

/-! # What an image is made of

The sizes of an image follow from the program. A program that has an image has strings without a
zero character, the operands of its opcodes, and labels that lead to places of the same routine; if
its code is sound, then only its strings and its size can keep it from having one.
-/

namespace Gsc

/-! ## The sizes of an image -/

def Operand.text? : Operand → Option String
  | .text s => some s
  | _ => none

def Instruction.texts (i : Instruction) : List String := i.operands.filterMap Operand.text?

theorem Instruction.mem_texts {i : Instruction} {s : String} :
    s ∈ i.texts ↔ .text s ∈ i.operands := by
  simp only [texts, List.mem_filterMap]
  constructor
  · rintro ⟨o, ho, hs⟩
    cases o with
    | text t =>
        cases hs
        exact ho
    | _ => cases hs
  · intro h
    exact ⟨_, h, rfl⟩

namespace Program

def strings (p : Program) : List String :=
  p.routines.map (·.name) ++ p.routines.flatMap fun r => r.code.flatMap Instruction.texts

def bytecodeSize (p : Program) : Nat := (p.routines.map fun r => Assembly.sizeOf r.code).sum

/-- How many bytes the stack region takes, with each string once. -/
def stackSize (p : Program) : Nat :=
  Stack.headerSize p.routines.length + ∑ s ∈ p.strings.toFinset, (s.utf8ByteSize + 1)

end Program

/-! ## Pools -/

namespace StringPool

theorem sizeOf_eq_sum (strings : List String) :
    sizeOf strings = (strings.map fun s => s.utf8ByteSize + 1).sum := by
  induction strings with
  | nil => rfl
  | cons s rest ih => rw [sizeOf, ih, List.map_cons, List.sum_cons]

/-- The second pool has come from the first by taking some more strings. -/
structure Takes (p : StringPool) (strings : List String) (q : StringPool) : Prop where
  grows : p.Grows q
  mem : ∀ s, s ∈ q.strings ↔ s ∈ p.strings ∨ s ∈ strings

theorem Takes.refl (p : StringPool) : p.Takes [] p := ⟨.refl p, by simp⟩

theorem Takes.trans {p q r : StringPool} {front back : List String} (h : p.Takes front q)
    (h' : q.Takes back r) : p.Takes (front ++ back) r := by
  refine ⟨h.grows.trans h'.grows, fun s => ?_⟩
  rw [h'.mem, h.mem, List.mem_append, or_assoc]

theorem takes_of_intern {p : StringPool} {s : String} {offset : UInt32}
    (h : (p.intern s).1 = .ok offset) : p.Takes [s] (p.intern s).2 := by
  refine ⟨p.grows_intern s, fun t => ?_⟩
  generalize hresult : p.intern s = result at h
  cases hresult ▸ p.interns s with
  | known hget =>
      have hs : s ∈ p.strings := mem_strings.2 ⟨_, hget⟩
      rw [List.mem_singleton]
      exact ⟨.inl, fun ht => ht.elim id fun heq => heq ▸ hs⟩
  | nul | full => cases h
  | new hget => rw [strings_added hget, List.mem_append]

/-- A pool of strings out of a set, which has room for all of them. -/
structure Within (p : StringPool) (all : Finset String) : Prop where
  faithful : p.Faithful
  subset : ∀ s ∈ p.strings, s ∈ all
  fits : p.base.toNat + ∑ s ∈ all, (s.utf8ByteSize + 1) ≤ regionLimit

theorem Within.takes {p q : StringPool} {all : Finset String} {strings : List String}
    (h : p.Within all) (ht : p.Takes strings q) (hs : ∀ s ∈ strings, s ∈ all) : q.Within all := by
  refine ⟨ht.grows.faithful h.faithful, fun s hq => ?_, by rw [ht.grows.base]; exact h.fits⟩
  rcases (ht.mem s).1 hq with hp | hn
  · exact h.subset s hp
  · exact hs s hn

theorem Faithful.size_eq_sum {p : StringPool} (h : p.Faithful) :
    p.size = ∑ s ∈ p.strings.toFinset, (s.utf8ByteSize + 1) := by
  rw [h.size_eq, sizeOf_eq_sum, ← List.sum_toFinset _ p.nodup_strings]

theorem Within.size_le {p : StringPool} {all : Finset String} (h : p.Within all) :
    p.size ≤ ∑ s ∈ all, (s.utf8ByteSize + 1) := by
  rw [h.faithful.size_eq_sum]
  exact Finset.sum_le_sum_of_subset fun s hs => h.subset s (List.mem_toFinset.1 hs)

/-- A pool with room gives an offset for every string that does not end early. -/
theorem Within.exists_intern {p : StringPool} {all : Finset String} {s : String}
    (h : p.Within all) (hs : hasNul s = false) : ∃ offset, (p.intern s).1 = .ok offset := by
  have hsize := Nat.add_le_add_left h.size_le p.base.toNat
  have hfits := Nat.le_trans hsize h.fits
  simp only [regionLimit] at hfits
  generalize hresult : p.intern s = result
  cases hresult ▸ p.interns s with
  | known hget =>
      have hlt := place_lt_sizeOf (h.faithful.place?_of_get? hget)
      rw [← h.faithful.size_eq] at hlt
      exact exists_offset (by simp only [UInt32.size]; omega)
  | nul hget hnul => cases hs.symm.trans hnul
  | full hget hnul hfull =>
      simp only [UInt32.size] at hfull
      omega
  | new hget hnul hroom =>
      refine exists_offset ?_
      rw [Nat.toUInt32_eq, UInt32.toNat_ofNat_of_lt' hroom]
      simp only [added, UInt32.size]
      omega

end StringPool

/-! ## Labels -/

def Routine.Bound (r : Routine) (l : Nat) : Prop := ∃ i ≤ r.code.length, r.target? l = some i

/-- The operands fit the opcode, the strings do not end early and the labels are bound. -/
def Instruction.Encodable (r : Routine) (i : Instruction) : Prop :=
  i.Sound (StringPool.hasNul · = false) r.Bound

namespace Assembly

theorem distance_eq_ok {r : Routine} {stop l : Nat} (hl : r.Bound l)
    (hfit : sizeOf r.code ≤ regionLimit) (hstop : stop ≤ sizeOf r.code) :
    ∃ distance, Assembly.distance r stop l = .ok distance := by
  obtain ⟨i, hi, ht⟩ := hl
  have htake := sizeOf_take_le r.code i
  simp only [regionLimit] at hfit
  refine ⟨(sizeOf (r.code.take i) : Int) - stop, ?_⟩
  simp only [Assembly.distance, ht, Option.bind_some, offset?, if_pos hi]
  rw [if_pos (by omega)]

theorem bound_of_distance {r : Routine} {stop l : Nat} {distance : Int}
    (h : Assembly.distance r stop l = .ok distance) : r.Bound l := by
  obtain ⟨i, hi, ht, -⟩ := target_of_distance h
  exact ⟨i, hi, ht⟩

/-! ## What encoding takes into the pool -/

theorem takes_of_intern {pool pool' : StringPool} {s : String} {offset : UInt32}
    (h : intern pool s = .ok (offset, pool')) : pool.Takes [s] pool' := by
  have hi := intern_eq_ok h
  have htakes := StringPool.takes_of_intern (congrArg Prod.fst hi)
  rwa [hi] at htakes

theorem takes_of_internAll {strings : List String} {pool pool' : StringPool}
    {offsets : List UInt32} (h : internAll pool strings = .ok (offsets, pool')) :
    pool.Takes strings pool' := by
  induction strings generalizing pool offsets with
  | nil =>
      cases h
      exact .refl _
  | cons s strings ih =>
      obtain ⟨offset, pool₁, rest, h₁, h₂, rfl⟩ := internAll_cons_eq_ok h
      exact (takes_of_intern h₁).trans (ih h₂)

theorem takes_of_encodeOperand {r : Routine} {stop : Nat} {operand : Operand}
    {pool pool' : StringPool} {bytes : Bytes}
    (h : encodeOperand r stop pool operand = .ok (bytes, pool')) :
    pool.Takes operand.text?.toList pool' := by
  cases operand with
  | text s =>
      obtain ⟨⟨offset, pool₁⟩, hi, h⟩ := bind_eq_ok.1 h
      cases h
      exact takes_of_intern hi
  | label l =>
      obtain ⟨distance, -, h⟩ := bind_eq_ok.1 h
      cases h
      exact .refl _
  | _ =>
      cases h
      exact .refl _

theorem takes_of_encodeOperands {r : Routine} {stop : Nat} {operands : List Operand}
    {pool pool' : StringPool} {bytes : Bytes}
    (h : encodeOperands r stop pool operands = .ok (bytes, pool')) :
    pool.Takes (operands.filterMap Operand.text?) pool' := by
  induction operands generalizing pool bytes with
  | nil =>
      cases h
      exact .refl _
  | cons operand operands ih =>
      obtain ⟨front, pool₁, back, h₁, h₂, rfl⟩ := encodeOperands_cons_eq_ok h
      rw [filterMap_cons_eq_append]
      exact (takes_of_encodeOperand h₁).trans (ih h₂)

theorem takes_of_encodeCode {t : OpcodeTable} {r : Routine} {code : List Instruction}
    {offset : Nat} {pool pool' : StringPool} {bytes : Bytes}
    (h : encodeCode t r offset pool code = .ok (bytes, pool')) :
    pool.Takes (code.flatMap Instruction.texts) pool' := by
  induction code generalizing offset pool bytes with
  | nil =>
      cases h
      exact .refl _
  | cons i code ih =>
      obtain ⟨front, pool₁, back, h₁, h₂, rfl⟩ := encodeCode_cons_eq_ok h
      exact (takes_of_encodeOperands h₁).trans (ih h₂)

/-- The strings of routines go to the pool, and their code has its size. -/
theorem takes_of_encodeRoutines {t : OpcodeTable} {routines : List Routine} {offset : Nat}
    {pool pool' : StringPool} {bytes : Bytes} {entries : List FunctionEntry}
    (h : encodeRoutines t offset pool routines = .ok (bytes, entries, pool')) :
    pool.Takes (routines.flatMap fun r => r.code.flatMap Instruction.texts) pool' ∧
      bytes.length = (routines.map fun r => sizeOf r.code).sum := by
  induction routines generalizing offset pool bytes entries with
  | nil =>
      cases h
      exact ⟨.refl _, rfl⟩
  | cons r routines ih =>
      obtain ⟨code, pool₁, start, size, back, rest, h₁, -, -, h₂, rfl, rfl⟩ :=
        encodeRoutines_cons_eq_ok h
      obtain ⟨-, hcode, -, hlength⟩ := encodeRoutine_spec h₁
      obtain ⟨htakes, hrest⟩ := ih h₂
      refine ⟨(takes_of_encodeCode hcode).trans htakes, ?_⟩
      rw [List.length_append, hlength, hrest, List.map_cons, List.sum_cons]

/-! ## What was encoded has bound labels -/

theorem bound_of_encodeOperands {r : Routine} {stop : Nat} {operands : List Operand}
    {pool pool' : StringPool} {bytes : Bytes}
    (h : encodeOperands r stop pool operands = .ok (bytes, pool')) :
    ∀ l, .label l ∈ operands → r.Bound l := by
  induction operands generalizing pool bytes with
  | nil => simp
  | cons operand operands ih =>
      obtain ⟨front, pool₁, back, h₁, h₂, rfl⟩ := encodeOperands_cons_eq_ok h
      intro l hl
      rcases List.mem_cons.1 hl with rfl | hl
      · obtain ⟨distance, hd, -⟩ := bind_eq_ok.1 h₁
        exact bound_of_distance hd
      · exact ih h₂ l hl

theorem bound_of_encodeCode {t : OpcodeTable} {r : Routine} {code : List Instruction}
    {offset : Nat} {pool pool' : StringPool} {bytes : Bytes}
    (h : encodeCode t r offset pool code = .ok (bytes, pool')) :
    ∀ i ∈ code, ∀ l, .label l ∈ i.operands → r.Bound l := by
  induction code generalizing offset pool bytes with
  | nil => simp
  | cons i code ih =>
      obtain ⟨front, pool₁, back, h₁, h₂, rfl⟩ := encodeCode_cons_eq_ok h
      intro j hj
      rcases List.mem_cons.1 hj with rfl | hj
      · exact bound_of_encodeOperands h₁
      · exact ih h₂ j hj

theorem encodable_of_encodeRoutines {t : OpcodeTable} {routines : List Routine} {offset : Nat}
    {pool pool' : StringPool} {bytes : Bytes} {entries : List FunctionEntry}
    (h : encodeRoutines t offset pool routines = .ok (bytes, entries, pool'))
    (hpool : pool'.Faithful) : ∀ r ∈ routines, ∀ i ∈ r.code, i.Encodable r := by
  induction routines generalizing offset pool bytes entries with
  | nil => simp
  | cons r routines ih =>
      obtain ⟨code, pool₁, start, size, back, rest, h₁, -, -, h₂, rfl, rfl⟩ :=
        encodeRoutines_cons_eq_ok h
      intro q hq
      rcases List.mem_cons.1 hq with rfl | hq
      · obtain ⟨hkinds, hcode, -, -⟩ := encodeRoutine_spec h₁
        intro i hi
        refine ⟨hkinds i hi, fun o ho => ?_⟩
        cases o with
        | text s =>
            have hs : s ∈ pool₁.strings := by
              refine ((takes_of_encodeCode hcode).mem s).2 (.inr (List.mem_flatMap.2 ⟨i, hi, ?_⟩))
              exact Instruction.mem_texts.2 ho
            exact hpool.clean s (((takes_of_encodeRoutines h₂).1.mem s).2 (.inl hs))
        | label l => exact bound_of_encodeCode hcode i hi l ho
        | _ => trivial
      · exact ih h₂ q hq

/-! ## What can be encoded -/

theorem checkSize_of_le (region : Region) {size : Nat} (h : size ≤ regionLimit) :
    checkSize region size = .ok size.toUInt32 := if_pos h

theorem checkCode_of_kinds {function : String} {code : List Instruction}
    (h : ∀ i ∈ code, i.opcode.operands = i.operands.map Operand.kind) :
    checkCode function code = .ok () := by
  induction code with
  | nil => rfl
  | cons i code ih =>
      simp only [List.forall_mem_cons] at h
      rw [checkCode, if_pos h.1, ih h.2]

end Assembly

/-! ## What goes wrong -/

/-- The error is about a string or a size, and not about operands or labels. -/
def AssembleError.SparesCode : AssembleError → Prop
  | nulInString _ | tooLarge .. => True
  | unboundLabel .. | operandMismatch .. => False

namespace Assembly

variable {t : OpcodeTable} {r : Routine} {texts : String → Prop}

theorem failsWith_checkSize (region : Region) (size : Nat) :
    FailsWith AssembleError.SparesCode (checkSize region size) := by
  intro e h
  unfold checkSize at h
  split at h
  · cases h
  · cases h
    trivial

theorem failsWith_intern (pool : StringPool) (s : String) :
    FailsWith AssembleError.SparesCode (intern pool s) := by
  intro e h
  unfold intern at h
  split at h
  · cases h
  · rename_i fault _ _
    cases fault with
    | error refusal =>
        cases h
        cases refusal <;> trivial
    | panic message => cases h

theorem failsWith_internAll (pool : StringPool) (strings : List String) :
    FailsWith AssembleError.SparesCode (internAll pool strings) := by
  induction strings generalizing pool with
  | nil => exact .ok _
  | cons s strings ih => exact .bind (failsWith_intern pool s) fun _ => .bind (ih _) fun _ => .ok _

theorem failsWith_distance {l : Nat} (hl : r.Bound l) (stop : Nat) :
    FailsWith AssembleError.SparesCode (Assembly.distance r stop l) := by
  intro e h
  obtain ⟨i, hi, ht⟩ := hl
  simp only [Assembly.distance, ht, Option.bind_some, offset?, if_pos hi] at h
  split at h
  · cases h
  · cases h
    trivial

theorem failsWith_encodeOperands {operands : List Operand} (stop : Nat) (pool : StringPool)
    (ho : ∀ o ∈ operands, o.Within texts r.Bound) :
    FailsWith AssembleError.SparesCode (encodeOperands r stop pool operands) := by
  induction operands generalizing pool with
  | nil => exact .ok _
  | cons operand operands ih =>
      simp only [List.forall_mem_cons] at ho
      have hfirst : FailsWith AssembleError.SparesCode (encodeOperand r stop pool operand) := by
        cases operand with
        | text s => exact .bind (failsWith_intern pool s) fun _ => .ok _
        | label l => exact .bind (failsWith_distance ho.1 stop) fun _ => .ok _
        | _ => exact .ok _
      exact .bind hfirst fun _ => .bind (ih _ ho.2) fun _ => .ok _

theorem failsWith_encodeCode {code : List Instruction} (offset : Nat) (pool : StringPool)
    (hc : ∀ i ∈ code, i.Sound texts r.Bound) :
    FailsWith AssembleError.SparesCode (encodeCode t r offset pool code) := by
  induction code generalizing offset pool with
  | nil => exact .ok _
  | cons i code ih =>
      simp only [List.forall_mem_cons] at hc
      exact .bind (failsWith_encodeOperands _ pool hc.1.within) fun _ =>
        .bind (ih _ _ hc.2) fun _ => .ok _

theorem failsWith_encodeRoutines {routines : List Routine} (offset : Nat) (pool : StringPool)
    (hc : ∀ r ∈ routines, ∀ i ∈ r.code, i.Sound texts r.Bound) :
    FailsWith AssembleError.SparesCode (encodeRoutines t offset pool routines) := by
  induction routines generalizing offset pool with
  | nil => exact .ok _
  | cons r routines ih =>
      simp only [List.forall_mem_cons] at hc
      have hfirst : FailsWith AssembleError.SparesCode (encodeRoutine t pool r) := by
        rw [encodeRoutine, checkCode_of_kinds fun i hi => (hc.1 i hi).kinds]
        exact failsWith_encodeCode 0 pool hc.1
      exact .bind hfirst fun _ => .bind (failsWith_checkSize _ _) fun _ =>
        .bind (failsWith_checkSize _ _) fun _ => .bind (ih _ _ hc.2) fun _ => .ok _

end Assembly

/-! ## Programs -/

namespace Program

variable {p : Program} {t : OpcodeTable}

/-- A function or an instruction that has a zero character, a wrong operand or a loose label has no
place in an image. -/
def Encodable (p : Program) : Prop :=
  ∀ r ∈ p.routines, StringPool.hasNul r.name = false ∧ ∀ i ∈ r.code, i.Encodable r

/-- What was assembled could be, and takes as many bytes as were counted. -/
theorem spec_of_assemble {image : Image} (h : p.assemble t = .ok image) :
    p.Encodable ∧ image.bytecode.length = p.bytecodeSize ∧ image.stack.length = p.stackSize := by
  obtain ⟨base, -, h⟩ := bind_eq_ok.1 h
  obtain ⟨⟨names, first⟩, hnames, h⟩ := bind_eq_ok.1 h
  obtain ⟨⟨bytecode, functions, final⟩, hcode, h⟩ := bind_eq_ok.1 h
  obtain ⟨_, -, h⟩ := bind_eq_ok.1 h
  obtain ⟨_, -, h⟩ := bind_eq_ok.1 h
  cases h
  have hheld := (Assembly.internAll_spec hnames).2
  have hcount := (Assembly.encodeRoutines_spec hcode).2
  obtain ⟨htakes, hlength⟩ := Assembly.takes_of_encodeRoutines hcode
  have hpool := (Assembly.takes_of_internAll hnames).trans htakes
  have hfinal := hpool.grows.faithful (StringPool.faithful_empty base)
  have hstrings : ∀ s, s ∈ final.strings ↔ s ∈ p.strings := by
    intro s
    rw [hpool.mem]
    simp [StringPool.empty, StringPool.strings, Dictionary.empty, strings]
  refine ⟨fun r hr => ⟨?_, ?_⟩, hlength, ?_⟩
  · refine hfinal.clean _ ((hstrings _).2 (List.mem_append_left _ ?_))
    exact List.mem_map_of_mem hr
  · exact Assembly.encodable_of_encodeRoutines hcode hfinal r hr
  · have hpaired : names.length = functions.length := by
      rw [← hheld.length_eq, List.length_map, hcount]
    have hset : final.strings.toFinset = p.strings.toFinset := by
      ext s
      rw [List.mem_toFinset, List.mem_toFinset, hstrings]
    rw [Stack.length_write hpaired, hcount, hfinal.size_eq_sum, hset]
    rfl

/-- A program with fitting operands and bound labels fails for its strings or its size alone. -/
theorem failsWith_assemble {texts : String → Prop}
    (hc : ∀ r ∈ p.routines, ∀ i ∈ r.code, i.Sound texts r.Bound) :
    FailsWith AssembleError.SparesCode (p.assemble t) :=
  .bind (Assembly.failsWith_checkSize _ _) fun _ =>
    .bind (Assembly.failsWith_internAll _ _) fun _ =>
      .bind (Assembly.failsWith_encodeRoutines _ _ hc) fun _ =>
        .bind (Assembly.failsWith_checkSize _ _) fun _ =>
          .bind (Assembly.failsWith_checkSize _ _) fun _ => .ok _

end Program

/-! ## Sound routines -/

theorem Routine.Sound.bound {texts : String → Prop} {r : Routine} (h : r.Sound texts) :
    ∀ i ∈ r.code, i.Sound texts r.Bound := by
  intro i hi
  refine (h.code i hi).mono fun l hl => ?_
  obtain ⟨v, hv, ht⟩ := h.labels l hl
  exact ⟨v, Nat.le_of_lt hv, ht⟩

end Gsc
