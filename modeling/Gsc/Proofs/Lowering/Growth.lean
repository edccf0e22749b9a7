import Gsc.Lowering.Script
import Gsc.Proofs.Lists

/-! # How drafts grow

`Extends` says what lowering leaves alone: whatever a draft holds is still there afterwards, in the
same place. `Settled` ties a draft to the routine that comes out in the end: what the draft holds is
in the routine. A routine that settles a draft settles every draft that it extends, so that facts
about the parts of a draft can be read off the finished routine.
-/

namespace Gsc

/-! ## Slots -/

/-- Every name has one slot, and slots are single bytes. -/
structure Slots.Valid (slots : Slots) : Prop where
  nodup : slots.names.toList.Nodup
  size_le : slots.names.toList.length ≤ Slots.limit

namespace Slots

theorem find?_eq (slots : Slots) (name : String) :
    slots.find? name = slots.names.toList.idxOf? name := by
  rw [find?, ← List.idxOf?_toArray, Array.toArray_toList]

theorem getElem?_of_find? {slots : Slots} {name : String} {slot : Nat}
    (h : slots.find? name = some slot) : slots.names.toList[slot]? = some name := by
  rw [find?_eq, List.idxOf?_eq_some_iff] at h
  obtain ⟨hlt, hname, -⟩ := h
  rw [List.getElem?_eq_getElem hlt, hname]

/-- A name that has no slot goes behind the others. -/
theorem define?_spec {slots slots' : Slots} {name : String} {slot : Nat}
    (h : slots.define? name = some (slot, slots')) :
    slots.names.toList <+: slots'.names.toList ∧ slots'.names.toList[slot]? = some name ∧
      (slots.Valid → slots'.Valid) := by
  unfold define? at h
  cases hf : slots.find? name with
  | some found =>
      simp only [hf] at h
      cases h
      exact ⟨List.prefix_rfl, getElem?_of_find? hf, id⟩
  | none =>
      simp only [hf] at h
      split at h
      · rename_i hroom
        cases h
        have hnew : name ∉ slots.names.toList := by
          rw [find?_eq] at hf
          exact List.idxOf?_eq_none_iff.1 hf
        rw [size] at hroom
        refine ⟨by simp, by simp [size], fun hv => ⟨?_, ?_⟩⟩
        · rw [Array.toList_push, List.nodup_append]
          refine ⟨hv.nodup, by simp, fun held hheld other hother => ?_⟩
          rw [List.mem_singleton.1 hother]
          intro heq
          exact hnew (heq ▸ hheld)
        · simp only [Array.toList_push, List.length_append, List.length_singleton,
            Array.length_toList]
          omega
      · cases h

end Slots

/-! ## Integers -/

def Instruction.constant? : Instruction → Option Int
  | ⟨.getZero, []⟩ => some 0
  | ⟨.getByte, [.byte v]⟩ => some v.toNat
  | ⟨.getNegByte, [.byte v]⟩ => some (-v.toNat)
  | ⟨.getUnsignedShort, [.short v]⟩ => some v.toNat
  | ⟨.getNegUnsignedShort, [.short v]⟩ => some (-v.toNat)
  | ⟨.getInteger, [.int v]⟩ => some v.toInt
  | _ => none

/-- The instructions that push an integer, each with its integer. -/
inductive Instruction.Pushes : Instruction → Int → Prop
  | zero : Pushes ⟨.getZero, []⟩ 0
  | byte (v : UInt8) : Pushes ⟨.getByte, [.byte v]⟩ v.toNat
  | negByte (v : UInt8) : Pushes ⟨.getNegByte, [.byte v]⟩ (-v.toNat)
  | short (v : UInt16) : Pushes ⟨.getUnsignedShort, [.short v]⟩ v.toNat
  | negShort (v : UInt16) : Pushes ⟨.getNegUnsignedShort, [.short v]⟩ (-v.toNat)
  | int (v : Int32) : Pushes ⟨.getInteger, [.int v]⟩ v.toInt

theorem Instruction.pushes_of_constant? {i : Instruction} {n : Int} (h : i.constant? = some n) :
    i.Pushes n := by
  unfold constant? at h
  split at h
  case h_7 => cases h
  all_goals
    cases h
    constructor

namespace Draft

/-- Either an instruction pushes the integer, or it is too wide and reported. -/
theorem pushInt_cases (d : Draft) (value : Int64) (span : Span) :
    (∃ i : Instruction, i.constant? = some value.toInt ∧
        d.pushInt value span = d.emitWith i.opcode i.operands) ∨
      ¬ (-2147483648 ≤ value.toInt ∧ value.toInt ≤ 2147483647) ∧
        d.pushInt value span = d.report (.integerTooWide value.toInt) span := by
  unfold pushInt
  generalize value.toInt = v
  dsimp only
  split
  · rename_i hv
    exact .inl ⟨⟨.getZero, []⟩, by rw [hv]; rfl, rfl⟩
  · split
    · refine .inl ⟨⟨.getByte, _⟩, ?_, rfl⟩
      simp only [Instruction.constant?, Nat.toUInt8_eq, UInt8.toNat_ofNat', Option.some.injEq]
      omega
    · split
      · refine .inl ⟨⟨.getNegByte, _⟩, ?_, rfl⟩
        simp only [Instruction.constant?, Nat.toUInt8_eq, UInt8.toNat_ofNat', Option.some.injEq]
        omega
      · split
        · refine .inl ⟨⟨.getUnsignedShort, _⟩, ?_, rfl⟩
          simp only [Instruction.constant?, Nat.toUInt16_eq, UInt16.toNat_ofNat',
            Option.some.injEq]
          omega
        · split
          · refine .inl ⟨⟨.getNegUnsignedShort, _⟩, ?_, rfl⟩
            simp only [Instruction.constant?, Nat.toUInt16_eq, UInt16.toNat_ofNat',
              Option.some.injEq]
            omega
          · split
            · refine .inl ⟨⟨.getInteger, _⟩, ?_, rfl⟩
              simp only [Instruction.constant?, Option.some.injEq]
              exact Int32.toInt_ofInt_of_le (by omega) (by omega)
            · exact .inr ⟨‹_›, rfl⟩

/-! ## Extension -/

/-- The second draft holds all that the first one does, in the same place. -/
structure Extends (d d' : Draft) : Prop where
  code : d.code.toList <+: d'.code.toList
  labels : d.labels.toList <+: d'.labels.toList
  slots : d.slots.names.toList <+: d'.slots.names.toList
  findings : d.findings.toList <+: d'.findings.toList
  valid : d.slots.Valid → d'.slots.Valid
  loops : d'.loops = d.loops

namespace Extends

theorem refl (d : Draft) : d.Extends d :=
  ⟨List.prefix_rfl, List.prefix_rfl, List.prefix_rfl, List.prefix_rfl, id, rfl⟩

theorem trans {d d' d'' : Draft} (h : d.Extends d') (h' : d'.Extends d'') : d.Extends d'' :=
  ⟨h.code.trans h'.code, h.labels.trans h'.labels, h.slots.trans h'.slots,
    h.findings.trans h'.findings, h'.valid ∘ h.valid, h'.loops.trans h.loops⟩

theorem size_le {d d' : Draft} (h : d.Extends d') : d.code.size ≤ d'.code.size := by
  have hl := h.code.length_le
  rwa [Array.length_toList, Array.length_toList] at hl

theorem labels_size_le {d d' : Draft} (h : d.Extends d') : d.labels.size ≤ d'.labels.size := by
  have hl := h.labels.length_le
  rwa [Array.length_toList, Array.length_toList] at hl

theorem emitWith {d d' : Draft} (h : d.Extends d') (opcode : Opcode) (operands : List Operand) :
    d.Extends (d'.emitWith opcode operands) :=
  h.trans ⟨by simp [Draft.emitWith], List.prefix_rfl, List.prefix_rfl, List.prefix_rfl, id, rfl⟩

theorem emit {d d' : Draft} (h : d.Extends d') (opcode : Opcode) :
    d.Extends (d'.emit opcode) :=
  h.emitWith opcode []

theorem jump {d d' : Draft} (h : d.Extends d') (opcode : Opcode) (label : Nat) :
    d.Extends (d'.jump opcode label) :=
  h.emitWith opcode [.label label]

theorem report {d d' : Draft} (h : d.Extends d') (defect : Defect) (span : Span) :
    d.Extends (d'.report defect span) :=
  h.trans ⟨List.prefix_rfl, List.prefix_rfl, List.prefix_rfl, by simp [Draft.report], id, rfl⟩

theorem addLabel {d d' : Draft} (h : d.Extends d') : d.Extends d'.addLabel :=
  h.trans ⟨List.prefix_rfl, by simp [Draft.addLabel], List.prefix_rfl, List.prefix_rfl, id, rfl⟩

/-- A label that came later may be bound. -/
theorem bind {d d' : Draft} (h : d.Extends d') {label : Nat} (hl : d.labels.size ≤ label) :
    d.Extends (d'.bind label) := by
  refine ⟨h.code, ?_, h.slots, h.findings, h.valid, h.loops⟩
  obtain ⟨later, hlater⟩ := h.labels
  have hlen : d.labels.toList.length ≤ label := by rwa [Array.length_toList]
  rw [Draft.bind, Array.toList_setIfInBounds, ← hlater, List.set_append_right _ _ hlen]
  exact List.prefix_append _ _

theorem defineSlot {d d' : Draft} (h : d.Extends d') (name : String) (span : Span) :
    d.Extends (d'.defineSlot name span).2 := by
  unfold Draft.defineSlot
  cases hs : d'.slots.define? name with
  | some found =>
      obtain ⟨slot, slots⟩ := found
      obtain ⟨hp, -, hv⟩ := Slots.define?_spec hs
      exact h.trans ⟨List.prefix_rfl, List.prefix_rfl, hp, List.prefix_rfl, hv, rfl⟩
  | none => exact h.report _ _

theorem pushInt {d d' : Draft} (h : d.Extends d') (value : Int64) (span : Span) :
    d.Extends (d'.pushInt value span) := by
  rcases pushInt_cases d' value span with ⟨i, -, he⟩ | ⟨-, he⟩
  · rw [he]
    exact h.emitWith _ _
  · rw [he]
    exact h.report _ _

/-- The body of a loop is in the loop, and what follows it is not. -/
theorem body {d d' d'' : Draft} {labels : LoopLabels} (h : d.Extends d')
    (hbody : (d'.enterLoop labels).Extends d'') : d.Extends d''.leaveLoop := by
  have hleave : d''.leaveLoop.loops = d'.loops := by
    rw [leaveLoop, hbody.loops]
    rfl
  exact h.trans ⟨hbody.code, hbody.labels, hbody.slots, hbody.findings, hbody.valid, hleave⟩

end Extends

/-! ## Labels that are not bound yet -/

def Fresh (d : Draft) (label : Nat) : Prop := d.labels.toList[label]? = some none

theorem fresh_addLabel (d : Draft) : d.addLabel.Fresh d.nextLabel := by
  simp [Fresh, addLabel, nextLabel]

theorem fresh_addLabel_twice (d : Draft) :
    d.addLabel.addLabel.Fresh d.nextLabel ∧ d.addLabel.addLabel.Fresh (d.nextLabel + 1) := by
  simp [Fresh, addLabel, nextLabel]

theorem fresh_addLabel_thrice (d : Draft) :
    d.addLabel.addLabel.addLabel.Fresh d.nextLabel ∧
      d.addLabel.addLabel.addLabel.Fresh (d.nextLabel + 1) ∧
      d.addLabel.addLabel.addLabel.Fresh (d.nextLabel + 2) := by
  simp [Fresh, addLabel, nextLabel]

theorem Fresh.lt_size {d : Draft} {label : Nat} (h : d.Fresh label) : label < d.labels.size := by
  have := (List.getElem?_eq_some_iff.1 h).1
  rwa [Array.length_toList] at this

theorem Fresh.extends {d d' : Draft} {label : Nat} (h : d.Fresh label) (he : d.Extends d') :
    d'.Fresh label :=
  getElem?_of_prefix he.labels h

theorem Fresh.bind {d : Draft} {label other : Nat} (h : d.Fresh label) (hne : other ≠ label) :
    (d.bind other).Fresh label := by
  rw [Fresh, Draft.bind, Array.toList_setIfInBounds, List.getElem?_set_ne hne]
  exact h

/-! ## The routine of a draft -/

/-- What the draft holds is in the routine, the first instruction apart, and nothing has been
found. -/
structure Settled (d : Draft) (r : Routine) : Prop where
  code : ∀ i ins, 0 < i → d.code.toList[i]? = some ins → r.code[i]? = some ins
  label : ∀ l i, d.labels.toList[l]? = some (some i) → r.target? l = some i
  slots : d.slots.names.toList <+: r.locals
  room : r.locals.length ≤ Slots.limit
  clean : d.findings.toList = []

namespace Settled

variable {d d' : Draft} {r : Routine}

theorem of_extends (h : d'.Settled r) (he : d.Extends d') : d.Settled r := by
  refine ⟨fun i ins hi hins => h.code i ins hi ?_, fun l i hl => h.label l i ?_,
    he.slots.trans h.slots, h.room, ?_⟩
  · exact getElem?_of_prefix he.code hins
  · exact getElem?_of_prefix he.labels hl
  · have hf := he.findings
    rw [h.clean] at hf
    exact List.prefix_nil.1 hf

theorem of_emitWith {opcode : Opcode} {operands : List Operand}
    (h : (d.emitWith opcode operands).Settled r) : d.Settled r :=
  h.of_extends ((Extends.refl d).emitWith opcode operands)

/-- An instruction is where the draft ended before it. -/
theorem emitted {opcode : Opcode} {operands : List Operand}
    (h : (d.emitWith opcode operands).Settled r) (hd : 0 < d.code.size) :
    r.code[d.code.size]? = some ⟨opcode, operands⟩ :=
  h.code _ _ hd (by simp [emitWith])

theorem not_report {defect : Defect} {span : Span} (h : (d.report defect span).Settled r) :
    False := by
  have := h.clean
  simp [report] at this

theorem of_leaveLoop (h : d.leaveLoop.Settled r) : d.Settled r :=
  ⟨h.code, h.label, h.slots, h.room, h.clean⟩

theorem of_enterLoop {labels : LoopLabels} (h : (d.enterLoop labels).Settled r) : d.Settled r :=
  ⟨h.code, h.label, h.slots, h.room, h.clean⟩

theorem of_bind {label : Nat} (h : (d.bind label).Settled r) (hf : d.Fresh label) :
    d.Settled r := by
  refine ⟨h.code, fun l i hl => h.label l i ?_, h.slots, h.room, h.clean⟩
  have hne : label ≠ l := by
    intro heq
    rw [← heq, hf] at hl
    cases hl
  rw [bind, Array.toList_setIfInBounds, List.getElem?_set_ne hne]
  exact hl

/-- A label leads to where the draft ended when it was bound. -/
theorem bound {label : Nat} (h : (d.bind label).Settled r) (hf : d.Fresh label) :
    r.target? label = some d.code.size := by
  apply h.label
  have hlt := (List.getElem?_eq_some_iff.1 hf).1
  rw [bind, Array.toList_setIfInBounds, List.getElem?_set_self hlt]

/-- The labels of a branch that is skipped and of what follows it. -/
theorem of_else {d₁ d₂ : Draft} {other : Nat} (hother : d₁.Fresh other)
    (hno : ((d₁.addLabel.jump .jump d₁.nextLabel).bind other).Extends d₂)
    (h : (d₂.bind d₁.nextLabel).Settled r) :
    d₂.Settled r ∧ (d₁.addLabel.jump .jump d₁.nextLabel).Settled r ∧
      r.target? other = some (d₁.addLabel.jump .jump d₁.nextLabel).code.size ∧
      r.target? d₁.nextLabel = some d₂.code.size := by
  have hne : other ≠ d₁.nextLabel := Nat.ne_of_lt hother.lt_size
  have hfo := hother.extends ((Extends.refl d₁).addLabel.jump .jump d₁.nextLabel)
  have hfd := (d₁.fresh_addLabel.extends ((Extends.refl _).jump .jump d₁.nextLabel)).bind hne
  have hf := hfd.extends hno
  have hb := (h.of_bind hf).of_extends hno
  exact ⟨h.of_bind hf, hb.of_bind hfo, hb.bound hfo, h.bound hf⟩

/-- The labels of a loop that goes on where it starts. -/
theorem of_loop {d₁ : Draft} (hbody : (d.addLabel.addLabel.bind d.nextLabel).Extends d₁)
    (h : ((d₁.jump .jump d.nextLabel).bind (d.nextLabel + 1)).Settled r) :
    (d₁.jump .jump d.nextLabel).Settled r ∧ r.target? d.nextLabel = some d.code.size ∧
      r.target? (d.nextLabel + 1) = some (d₁.jump .jump d.nextLabel).code.size := by
  obtain ⟨hstart, hexit⟩ := d.fresh_addLabel_twice
  have hjump := hbody.jump .jump d.nextLabel
  have hf := (hexit.bind (Nat.ne_of_lt (Nat.lt_succ_self _))).extends hjump
  have hj := h.of_bind hf
  exact ⟨hj, (hj.of_extends hjump).bound hstart, h.bound hf⟩

/-- The labels of a loop that goes on behind its body. -/
theorem of_stepLoop {d₁ d₂ : Draft}
    (hbody : (d.addLabel.addLabel.addLabel.bind d.nextLabel).Extends d₁)
    (hstep : (d₁.bind (d.nextLabel + 1)).Extends d₂)
    (h : ((d₂.jump .jump d.nextLabel).bind (d.nextLabel + 2)).Settled r) :
    (d₂.jump .jump d.nextLabel).Settled r ∧ d₁.Settled r ∧
      r.target? d.nextLabel = some d.code.size ∧
      r.target? (d.nextLabel + 1) = some d₁.code.size ∧
      r.target? (d.nextLabel + 2) = some (d₂.jump .jump d.nextLabel).code.size := by
  obtain ⟨hstart, hnext, hexit⟩ := d.fresh_addLabel_thrice
  have hfn := (hnext.bind (Nat.ne_of_lt (Nat.lt_succ_self _))).extends hbody
  have hfe := ((hexit.bind (Nat.ne_of_lt (by omega))).extends hbody).bind
    (Nat.ne_of_lt (Nat.lt_succ_self (d.nextLabel + 1)))
  have hjump := hstep.jump .jump d.nextLabel
  have hf := hfe.extends hjump
  have hj := h.of_bind hf
  have hb := hj.of_extends hjump
  have hs := hb.of_bind hfn
  exact ⟨hj, hs, (hs.of_extends hbody).bound hstart, hb.bound hfn, h.bound hf⟩

theorem slot_of_find? {name : String} {slot : Nat} (h : d.Settled r)
    (hs : d.slots.find? name = some slot) : r.locals[slot]? = some name :=
  getElem?_of_prefix h.slots (Slots.getElem?_of_find? hs)

theorem slot_of_defineSlot {name : String} {span : Span}
    (h : (d.defineSlot name span).2.Settled r) :
    r.locals[(d.defineSlot name span).1]? = some name := by
  unfold defineSlot at h ⊢
  cases hs : d.slots.define? name with
  | some found =>
      obtain ⟨slot, slots⟩ := found
      simp only [hs] at h ⊢
      exact getElem?_of_prefix h.slots (Slots.define?_spec hs).2.1
  | none =>
      simp only [hs] at h
      exact h.not_report.elim

end Settled

end Draft

/-! ## Lowering only extends -/

theorem CallPlan.extends_start (plan : CallPlan) (d : Draft) : d.Extends (plan.start d) := by
  unfold start
  split
  · exact (Draft.Extends.refl d).emitWith _ _
  · exact .refl d

/-- A negated operand that is no literal is subtracted from zero. -/
theorem Expr.lower_neg_cases (scope : Scope) (span : Span) (operand : Expr) (d : Draft) :
    (∃ s v, operand = .int s v) ∨ (∃ s v, operand = .float s v) ∨
      (Expr.unary span .neg operand).lower scope d =
        (operand.lower scope (d.emit .getZero)).emit .minus := by
  cases operand with
  | int s v => exact .inl ⟨s, v, rfl⟩
  | float s v => exact .inr (.inl ⟨s, v, rfl⟩)
  | _ => exact .inr (.inr (by simp only [Expr.lower]))

mutual

theorem Expr.extends_lower (scope : Scope) (e : Expr) (d : Draft) :
    d.Extends (e.lower scope d) := by
  have h₀ := Draft.Extends.refl d
  match e with
  | .int span v => exact h₀.pushInt v span
  | .float .. | .text .. | .localized .. | .undefined _ | .level _ | .self _ | .game _ | .anim _
  | .emptyArray _ | .bool _ true | .bool _ false | .functionRef _ (some _) _ =>
      simp only [Expr.lower]
      exact h₀.emitWith _ _
  | .vector _ x y z =>
      have hx := x.extends_lower scope d
      have hy := hx.trans (y.extends_lower scope _)
      exact (hy.trans (z.extends_lower scope _)).emitWith _ _
  | .ident span name =>
      simp only [Expr.lower]
      split
      · exact h₀.emitWith _ _
      · exact h₀.report _ _
  | .functionRef span none name =>
      simp only [Expr.lower]
      split
      · exact h₀.emitWith _ _
      · exact h₀.report _ _
  | .field _ base name =>
      simp only [Expr.lower]
      split
      · exact (base.extends_lower scope d).emitWith _ _
      · exact (base.extends_lower scope d).emitWith _ _
  | .index _ base i =>
      have hi := i.extends_lower scope d
      exact (hi.trans (base.extends_lower scope _)).emitWith _ _
  | .call span object thread callee args =>
      simp only [Expr.lower]
      split
      · exact h₀.report _ _
      · split
        · exact h₀.report _ _
        · rename_i plan _
          have ha := (plan.extends_start d).trans (extends_lowerArgs scope args _)
          have ho := ha.trans (extends_lowerObject scope object _)
          exact (ho.trans (callee.extends_lowerTarget scope _)).emitWith _ _
  | .unary span .neg operand =>
      rcases operand.lower_neg_cases scope span d with ⟨s, v, rfl⟩ | ⟨s, v, rfl⟩ | he
      · exact h₀.pushInt (-v) _
      · exact h₀.emitWith _ _
      · rw [he]
        exact ((h₀.emit .getZero).trans (operand.extends_lower scope _)).emitWith _ _
  | .unary _ .not operand => exact (operand.extends_lower scope d).emitWith _ _
  | .unary _ .bitNot operand => exact (operand.extends_lower scope d).emitWith _ _
  | .binary _ left op right =>
      have hl := (left.extends_lower scope d).trans (right.extends_lower scope _)
      have hj := fun opcode =>
        (h₀.addLabel.trans (left.extends_lower scope _)).jump opcode d.nextLabel
      cases op with
      | and =>
          exact ((hj .jumpOnFalseExpr).trans (right.extends_lower scope _)).bind (Nat.le_refl _)
      | or =>
          exact ((hj .jumpOnTrueExpr).trans (right.extends_lower scope _)).bind (Nat.le_refl _)
      | _ => exact hl.emitWith _ _
  | .ternary _ condition thenExpr elseExpr =>
      have hc := h₀.addLabel.addLabel.trans (condition.extends_lower scope _)
      have ht := (hc.jump .jumpOnFalse d.nextLabel).trans
        (thenExpr.extends_lower scope _)
      have he := ((ht.jump .jump d.addLabel.nextLabel).bind (Nat.le_refl _)).trans
        (elseExpr.extends_lower scope _)
      exact he.bind (h₀.addLabel.labels_size_le)

theorem Callee.extends_lowerTarget (scope : Scope) (callee : Callee) (d : Draft) :
    d.Extends (callee.lowerTarget scope d) := by
  match callee with
  | .pointer target => exact target.extends_lower scope d
  | .named _ => exact .refl d
  | .far _ _ => exact .refl d

theorem extends_lowerObject (scope : Scope) (object : Option Expr) (d : Draft) :
    d.Extends (lowerObject scope object d) := by
  match object with
  | none => exact .refl d
  | some e => exact e.extends_lower scope d

theorem extends_lowerArgs (scope : Scope) (args : List Expr) (d : Draft) :
    d.Extends (lowerArgs scope args d) := by
  match args with
  | [] => exact .refl d
  | arg :: rest =>
      exact (extends_lowerArgs scope rest d).trans (arg.extends_lower scope _)

end

theorem Draft.Extends.lower {d d' : Draft} (h : d.Extends d') (scope : Scope) (e : Expr) :
    d.Extends (e.lower scope d') :=
  h.trans (e.extends_lower scope d')

theorem Expr.extends_lowerRef (scope : Scope) (defining : Bool) (e : Expr) (d : Draft) :
    d.Extends (e.lowerRef scope defining d) := by
  have h₀ := Draft.Extends.refl d
  match e with
  | .ident span name =>
      simp only [Expr.lowerRef]
      split
      · exact (h₀.defineSlot name span).emitWith _ _
      · split
        · exact h₀.emitWith _ _
        · exact h₀.report _ _
  | .field span base name =>
      simp only [Expr.lowerRef]
      split
      · exact h₀.report _ _
      · exact (h₀.lower scope base).emitWith _ _
  | .index _ base i =>
      exact ((h₀.lower scope i).trans (base.extends_lowerRef scope defining _)).emitWith _ _
  | .int .. | .float .. | .text .. | .localized .. | .undefined _ | .bool .. | .level _ | .self _
  | .game _ | .anim _ | .emptyArray _ | .vector .. | .functionRef .. | .call .. | .unary ..
  | .binary .. | .ternary .. => exact h₀.report _ _

namespace Draft.Extends

variable {d d' : Draft}

theorem lowerRef (h : d.Extends d') (scope : Scope) (defining : Bool) (e : Expr) :
    d.Extends (e.lowerRef scope defining d') :=
  h.trans (e.extends_lowerRef scope defining d')

theorem guard (h : d.Extends d') (scope : Scope) (exit : Nat) (condition : Option Expr) :
    d.Extends (d'.guard scope exit condition) := by
  cases condition with
  | none => exact h
  | some condition =>
      simp only [Draft.guard]
      split
      · exact h
      · exact (h.lower scope condition).emitWith _ _

theorem store (h : d.Extends d') (slot : Nat) : d.Extends (d'.store slot) :=
  (h.emitWith _ _).emitWith _ _

theorem receive (h : d.Extends d') (targets : List (Located String)) :
    d.Extends (d'.receive targets) := by
  induction targets generalizing d' with
  | nil => exact h
  | cons v rest ih => exact ih ((h.defineSlot v.value v.span).emitWith _ _)

theorem assignOp (h : d.Extends d') (scope : Scope) (span : Span) (target value : Expr)
    (op : AssignOp) : d.Extends (op.lower scope span target value d') := by
  cases op with
  | assign => exact ((h.lower scope value).lowerRef scope true target).emitWith _ _
  | compound op =>
      have hv := (h.lower scope target).lower scope value
      simp only [AssignOp.lower]
      refine Extends.emitWith (Extends.lowerRef ?_ scope false target) _ _
      split
      · exact hv.emitWith _ _
      · exact hv.report _ _

theorem defineArraySlots (h : d.Extends d') (span : Span) :
    d.Extends (ArraySlots.define d' span).2 := by
  have hn : d.Extends { d' with arrayLoops := d'.arrayLoops + 1 } :=
    ⟨h.code, h.labels, h.slots, h.findings, h.valid, h.loops⟩
  exact (hn.defineSlot _ _).defineSlot _ _

theorem first (h : d.Extends d') (slots : ArraySlots) : d.Extends (slots.first d') :=
  (((h.store _).emitWith _ _).emitWith _ _).store _

theorem element (h : d.Extends d') (slots : ArraySlots) (exit : Nat) :
    d.Extends (slots.element exit d') :=
  (((((h.emitWith _ _).emitWith _ _).emitWith _ _).emitWith _ _).emitWith _ _).emitWith _ _

theorem advance (h : d.Extends d') (slots : ArraySlots) : d.Extends (slots.advance d') :=
  (((h.emitWith _ _).emitWith _ _).emitWith _ _).store _

end Draft.Extends

mutual

theorem Stmt.extends_lower (scope : Scope) (s : Stmt) (d : Draft) :
    d.Extends (s.lower scope d) := by
  have h₀ := Draft.Extends.refl d
  match s with
  | .block _ body => exact extends_lowerBody scope body d
  | .ifElse _ condition thenBranch none =>
      have hc := (h₀.addLabel.lower scope condition).jump .jumpOnFalse d.nextLabel
      exact (hc.trans (thenBranch.extends_lower scope _)).bind (Nat.le_refl _)
  | .ifElse _ condition thenBranch (some elseBranch) =>
      have hc := (h₀.addLabel.lower scope condition).jump .jumpOnFalse d.nextLabel
      have ht := hc.trans (thenBranch.extends_lower scope _)
      have hj := fun done =>
        (ht.addLabel.jump .jump done).bind (Nat.le_refl d.labels.size)
      exact ((hj _).trans (elseBranch.extends_lower scope _)).bind ht.labels_size_le
  | .whileLoop _ condition body =>
      have hg := (h₀.addLabel.addLabel.bind (Nat.le_refl _)).guard scope (d.nextLabel + 1)
        (some condition)
      have hb := hg.body
        (body.extends_lower scope (Draft.enterLoop _ ⟨d.nextLabel + 1, d.nextLabel⟩))
      exact (hb.jump .jump d.nextLabel).bind (Nat.le_succ _)
  | .forLoop _ init condition step body =>
      have hi := extends_lowerClause scope init d
      have hl := hi.labels_size_le
      let start := (lowerClause scope init d).nextLabel
      have hg := (hi.addLabel.addLabel.addLabel.bind hl).guard scope (start + 2) condition
      have hb := hg.body (body.extends_lower scope (Draft.enterLoop _ ⟨start + 2, start + 1⟩))
      have hs := (hb.bind (Nat.le_succ_of_le hl)).trans (extends_lowerClause scope step _)
      exact (hs.jump .jump start).bind (Nat.le_succ_of_le (Nat.le_succ_of_le hl))
  | .foreach _ item collection body =>
      let slots := (ArraySlots.define d collection.span).1
      have hf := ((h₀.defineArraySlots collection.span).lower scope collection).first slots
      have hl := hf.labels_size_le
      let start := (slots.first
        (collection.lower scope (ArraySlots.define d collection.span).2)).nextLabel
      have he := (hf.addLabel.addLabel.addLabel.bind hl).element slots (start + 2)
      have hb := fun slot => ((he.defineSlot item.value item.span).store slot).body
        (body.extends_lower scope (Draft.enterLoop _ ⟨start + 2, start + 1⟩))
      have ha := fun slot => ((hb slot).bind (Nat.le_succ_of_le hl)).advance slots
      exact ((ha _).jump .jump start).bind (Nat.le_succ_of_le (Nat.le_succ_of_le hl))
  | .ret _ none | .waitFrame _ => exact h₀.emitWith _ _
  | .ret _ (some value) | .wait _ value => exact (h₀.lower scope value).emitWith _ _
  | .breakLoop _ | .continueLoop _ =>
      simp only [Stmt.lower]
      split
      · exact h₀.emitWith _ _
      · exact h₀.report _ _
  | .waitTill _ object event targets =>
      exact ((((h₀.lower scope event).lower scope object).emitWith _ _).receive targets).emitWith
        _ _
  | .notify span object event args =>
      simp only [Stmt.lower]
      have hr : d.Extends
          (if argumentLimit < args.length then d.report .tooManyNotifyArguments span else d) := by
        split
        · exact h₀.report _ _
        · exact h₀
      have ha := (hr.emit .preScriptCall).trans (extends_lowerArgs scope args _)
      exact ((ha.lower scope event).lower scope object).emitWith _ _
  | .endOn _ object event => exact ((h₀.lower scope event).lower scope object).emitWith _ _
  | .assign span target op value => exact h₀.assignOp scope span target value op
  | .incDec _ target increment => exact (h₀.lowerRef scope false target).emitWith _ _
  | .expr _ value =>
      cases value with
      | call span object thread callee args => exact (h₀.lower scope _).emitWith _ _
      | _ => exact h₀.report _ _
  | .empty _ => exact h₀

theorem extends_lowerBody (scope : Scope) (body : List Stmt)
    (d : Draft) : d.Extends (lowerBody scope body d) := by
  match body with
  | [] => exact .refl d
  | s :: rest =>
      exact (s.extends_lower scope d).trans (extends_lowerBody scope rest _)

theorem extends_lowerClause (scope : Scope) (clause : Option Stmt)
    (d : Draft) : d.Extends (lowerClause scope clause d) := by
  match clause with
  | none => exact .refl d
  | some s => exact s.extends_lower scope d

end

end Gsc
