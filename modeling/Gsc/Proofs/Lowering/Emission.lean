import Gsc.Proofs.Lowering.Code

/-! # Lowering leaves the code of what it lowers

Whatever a draft settles into, the instructions that lowering an expression or a statement adds are
its code there. A function without findings becomes a routine that holds the code of the function.
-/

namespace Gsc

namespace Draft.Settled

variable {d : Draft} {r : Routine}

theorem slotAt {opcode : Opcode} {slot : Nat} {name : String}
    (h : (d.emitSlot opcode slot).Settled r) (hd : 0 < d.code.size)
    (hname : r.locals[slot]? = some name) : r.SlotAt d.code.size opcode name := by
  have hlt := (List.getElem?_eq_some_iff.1 hname).1
  have hroom := h.room
  refine ⟨slot.toUInt8, h.emitted hd, ?_⟩
  rw [Nat.toUInt8_eq, UInt8.toNat_ofNat', Nat.mod_eq_of_lt]
  · exact hname
  · rw [Slots.limit] at hroom
    omega

theorem jumpAt {opcode : Opcode} {label target : Nat} (h : (d.jump opcode label).Settled r)
    (hd : 0 < d.code.size) (ht : r.target? label = some target) :
    r.JumpAt d.code.size opcode target :=
  ⟨label, h.emitted hd, ht⟩

end Draft.Settled

namespace Draft

variable (d : Draft)

@[simp] theorem size_emitWith (opcode : Opcode) (operands : List Operand) :
    (d.emitWith opcode operands).code.size = d.code.size + 1 := by
  simp [emitWith]

@[simp] theorem size_emit (opcode : Opcode) : (d.emit opcode).code.size = d.code.size + 1 :=
  d.size_emitWith opcode []

@[simp] theorem size_emitSlot (opcode : Opcode) (slot : Nat) :
    (d.emitSlot opcode slot).code.size = d.code.size + 1 :=
  d.size_emitWith opcode _

@[simp] theorem size_jump (opcode : Opcode) (label : Nat) :
    (d.jump opcode label).code.size = d.code.size + 1 :=
  d.size_emitWith opcode _

@[simp] theorem size_callBuiltin (name : String) (count : UInt8) :
    (d.callBuiltin name count).code.size = d.code.size + 1 :=
  d.size_emitWith .callBuiltin _

@[simp] theorem size_bind (label : Nat) : (d.bind label).code.size = d.code.size := rfl

@[simp] theorem size_addLabel : d.addLabel.code.size = d.code.size := rfl

@[simp] theorem size_enterLoop (labels : LoopLabels) :
    (d.enterLoop labels).code.size = d.code.size :=
  rfl

@[simp] theorem size_leaveLoop : d.leaveLoop.code.size = d.code.size := rfl

@[simp] theorem size_store (slot : Nat) : (d.store slot).code.size = d.code.size + 2 := by
  simp [store]

@[simp] theorem size_defineSlot (name : String) (span : Span) :
    (d.defineSlot name span).2.code.size = d.code.size := by
  unfold defineSlot
  split <;> rfl

end Draft

theorem Draft.Extends.pos {d d' : Draft} (h : d.Extends d') (hd : 0 < d.code.size) :
    0 < d'.code.size :=
  Nat.lt_of_lt_of_le hd h.size_le

theorem Instruction.constant?_bounds {ins : Instruction} {n : Int} (h : ins.constant? = some n) :
    -2147483648 ≤ n ∧ n < 2147483648 := by
  cases pushes_of_constant? h with
  | zero => decide
  | byte v | negByte v | short v | negShort v =>
      have hv := v.toNat_lt
      omega
  | int v => exact ⟨v.le_toInt, v.toInt_lt⟩

/-- Integers that instructions push are narrow enough to be negated. -/
theorem Instruction.toInt_neg_of_constant? {ins : Instruction} {value : Int64}
    (h : ins.constant? = some (-value).toInt) : ins.constant? = some (-value.toInt) := by
  have hb := constant?_bounds h
  have hlo := value.le_toInt
  have hhi := value.toInt_lt
  rw [Int64.toInt_neg] at h hb
  have hneg : (-value.toInt).bmod (2 ^ 64) = -value.toInt := by
    rw [Int.bmod_def] at hb ⊢
    omega
  rwa [hneg] at h

section Expressions

variable {scope : Scope} {r : Routine}

theorem CallPlan.markerAt_start {plan : CallPlan} {d : Draft} (hd : 0 < d.code.size)
    (h : (plan.start d).Settled r) : plan.MarkerAt r d.code.size (plan.start d).code.size := by
  unfold CallPlan.start at h ⊢
  unfold CallPlan.MarkerAt
  split
  · rename_i hm
    simp only [hm, if_true] at h ⊢
    exact ⟨h.emitted hd, d.size_emitWith _ _⟩
  · rfl

theorem Expr.codeAt_pushInt {e : Expr} {d : Draft} {value : Int64} {span : Span}
    (hd : 0 < d.code.size) (h : (d.pushInt value span).Settled r)
    (he : ∀ ins : Instruction, ins.constant? = some value.toInt →
      r.code[d.code.size]? = some ins → e.CodeAt scope r d.code.size (d.code.size + 1)) :
    e.CodeAt scope r d.code.size (d.pushInt value span).code.size := by
  rcases d.pushInt_cases value span with ⟨ins, hi, hp⟩ | ⟨-, hp⟩
  · rw [hp] at h ⊢
    rw [Draft.size_emitWith]
    exact he ins hi (h.emitted hd)
  · rw [hp] at h
    exact h.not_report.elim

theorem Expr.codeAt_atom {e : Expr} {d : Draft} {opcode : Opcode} {operands : List Operand}
    (he : e.atom? = some ⟨opcode, operands⟩) (hd : 0 < d.code.size)
    (h : (d.emitWith opcode operands).Settled r) :
    e.CodeAt scope r d.code.size (d.emitWith opcode operands).code.size := by
  rw [Draft.size_emitWith]
  exact .atom he (h.emitted hd)

/-- Both operands of an operator that may skip the second one. -/
theorem Expr.shortCircuitAt_lower {left right : Expr} {d : Draft} {opcode : Opcode}
    (hd : 0 < d.code.size)
    (hleft : ∀ d : Draft, 0 < d.code.size → (left.lower scope d).Settled r →
      left.CodeAt scope r d.code.size (left.lower scope d).code.size)
    (hright : ∀ d : Draft, 0 < d.code.size → (right.lower scope d).Settled r →
      right.CodeAt scope r d.code.size (right.lower scope d).code.size)
    (h : ((right.lower scope ((left.lower scope d.addLabel).jump opcode d.nextLabel)).bind
      d.nextLabel).Settled r) :
    ∃ j, left.CodeAt scope r d.code.size j ∧
      r.JumpAt j opcode
        (right.lower scope ((left.lower scope d.addLabel).jump opcode d.nextLabel)).code.size ∧
      right.CodeAt scope r (j + 1)
        (right.lower scope ((left.lower scope d.addLabel).jump opcode d.nextLabel)).code.size := by
  have hl := left.extends_lower scope d.addLabel
  have hjump := hl.jump opcode d.nextLabel
  have hf := d.fresh_addLabel.extends (hjump.lower scope right)
  have hr := h.of_bind hf
  have hj := hr.of_extends (right.extends_lower scope _)
  have hcode := hright _ (hjump.pos hd) hr
  rw [Draft.size_jump] at hcode
  exact ⟨_, hleft d.addLabel hd hj.of_emitWith, hj.jumpAt (hl.pos hd) (h.bound hf), hcode⟩

mutual

theorem Expr.codeAt_lower (e : Expr) (d : Draft) (hd : 0 < d.code.size)
    (h : (e.lower scope d).Settled r) :
    e.CodeAt scope r d.code.size (e.lower scope d).code.size := by
  match e with
  | .int span v => exact Expr.codeAt_pushInt hd h fun ins hc hi => .int hc hi
  | .float .. | .text .. | .localized .. | .undefined _ | .level _ | .self _ | .game _ | .anim _
  | .emptyArray _ | .bool _ true | .bool _ false | .functionRef _ (some _) _ =>
      simp only [Expr.lower] at h ⊢
      exact Expr.codeAt_atom rfl hd h
  | .vector _ x y z =>
      simp only [Expr.lower] at h ⊢
      have hz := h.of_emitWith
      have hy := hz.of_extends (z.extends_lower scope _)
      have hx := hy.of_extends (y.extends_lower scope _)
      have hdx := (x.extends_lower scope d).pos hd
      have hdy := (y.extends_lower scope _).pos hdx
      have hdz := (z.extends_lower scope _).pos hdy
      rw [Draft.size_emit]
      exact .vector (x.codeAt_lower d hd hx) (y.codeAt_lower _ hdx hy) (z.codeAt_lower _ hdy hz)
        (h.emitted hdz)
  | .ident span name =>
      simp only [Expr.lower] at h ⊢
      split at h
      · rename_i slot hs
        rw [Draft.size_emitSlot]
        exact .ident (h.slotAt hd (h.of_emitWith.slot_of_find? hs))
      · exact h.not_report.elim
  | .functionRef span none name =>
      simp only [Expr.lower] at h ⊢
      by_cases hn : scope.declares name = true
      · rw [if_pos hn] at h ⊢
        exact Expr.codeAt_atom rfl hd h
      · rw [if_neg hn] at h
        exact h.not_report.elim
  | .field _ base name =>
      have hdb := (base.extends_lower scope d).pos hd
      simp only [Expr.lower] at h ⊢
      by_cases hn : name = "size"
      · rw [if_pos hn] at h ⊢
        rw [Draft.size_emit, hn]
        exact .size (base.codeAt_lower d hd h.of_emitWith) (h.emitted hdb)
      · rw [if_neg hn] at h ⊢
        rw [Draft.size_emitWith]
        exact .field (base.codeAt_lower d hd h.of_emitWith) (h.emitted hdb)
  | .index _ base i =>
      simp only [Expr.lower] at h ⊢
      have hb := h.of_emitWith
      have hdi := (i.extends_lower scope d).pos hd
      have hdb := (base.extends_lower scope _).pos hdi
      rw [Draft.size_emit]
      exact .index (i.codeAt_lower d hd (hb.of_extends (base.extends_lower scope _)))
        (base.codeAt_lower _ hdi hb) (h.emitted hdb)
  | .call span object thread callee args =>
      simp only [Expr.lower] at h ⊢
      by_cases hlimit : argumentLimit < args.length
      · rw [if_pos hlimit] at h
        exact h.not_report.elim
      · rw [if_neg hlimit] at h ⊢
        split at h
        · exact h.not_report.elim
        · rename_i plan hplan
          have hc := h.of_emitWith
          have ho := hc.of_extends (callee.extends_lowerTarget scope _)
          have ha := ho.of_extends (extends_lowerObject scope object _)
          have hs := ha.of_extends (extends_lowerArgs scope args _)
          have hds := (plan.extends_start d).pos hd
          have hda := (extends_lowerArgs scope args _).pos hds
          have hdo := (extends_lowerObject scope object _).pos hda
          have hdc := (callee.extends_lowerTarget scope _).pos hdo
          rw [CallPlan.finish, Draft.size_emitWith]
          exact .call (Nat.le_of_not_lt hlimit) hplan (CallPlan.markerAt_start hd hs)
            (argsAt_lowerArgs args _ hds ha) (objectAt_lowerObject object _ hda ho)
            (callee.targetAt_lowerTarget _ hdo hc) (h.emitted hdc)
  | .unary span .neg operand =>
      rcases operand.lower_neg_cases scope span d with ⟨s, v, rfl⟩ | ⟨s, v, rfl⟩ | he
      · exact Expr.codeAt_pushInt hd h fun ins hc hi =>
          .negInt (Instruction.toInt_neg_of_constant? hc) hi
      · simp only [Expr.lower] at h ⊢
        exact Expr.codeAt_atom rfl hd h
      · rw [he] at h ⊢
        have ho := h.of_emitWith
        have hz := ho.of_extends (operand.extends_lower scope _)
        have hdz := ((Draft.Extends.refl d).emit .getZero).pos hd
        have hdo := (operand.extends_lower scope _).pos hdz
        have hcode := operand.codeAt_lower _ hdz ho
        rw [Draft.size_emit] at hcode
        rw [Draft.size_emit]
        exact .neg (hz.emitted hd) hcode (h.emitted hdo)
  | .unary _ .not operand =>
      have hdo := (operand.extends_lower scope d).pos hd
      simp only [Expr.lower] at h ⊢
      rw [Draft.size_emit]
      exact .not (operand.codeAt_lower d hd h.of_emitWith) (h.emitted hdo)
  | .unary _ .bitNot operand =>
      have hdo := (operand.extends_lower scope d).pos hd
      simp only [Expr.lower] at h ⊢
      rw [Draft.size_emit]
      exact .bitNot (operand.codeAt_lower d hd h.of_emitWith) (h.emitted hdo)
  | .binary span left op right =>
      cases op with
      | and =>
          simp only [Expr.lower] at h ⊢
          obtain ⟨j, hl, hj, hr⟩ := Expr.shortCircuitAt_lower hd left.codeAt_lower
            right.codeAt_lower h
          exact .and hl hj hr
      | or =>
          simp only [Expr.lower] at h ⊢
          obtain ⟨j, hl, hj, hr⟩ := Expr.shortCircuitAt_lower hd left.codeAt_lower
            right.codeAt_lower h
          exact .or hl hj hr
      | _ =>
          simp only [Expr.lower, BinaryOp.opcode?, Draft.size_emit] at h ⊢
          have hr := h.of_emitWith
          have hdl := (left.extends_lower scope d).pos hd
          have hdr := (right.extends_lower scope _).pos hdl
          exact .binary rfl (left.codeAt_lower d hd (hr.of_extends (right.extends_lower scope _)))
            (right.codeAt_lower _ hdl hr) (h.emitted hdr)
  | .ternary _ condition thenExpr elseExpr =>
      simp only [Expr.lower, Draft.size_bind] at h ⊢
      have hc := condition.extends_lower scope d.addLabel.addLabel
      have hjc := hc.jump .jumpOnFalse d.nextLabel
      have ht := hjc.lower scope thenExpr
      have hjt := ht.jump .jump d.addLabel.nextLabel
      have hfo := (d.fresh_addLabel.extends (.addLabel (.refl _))).extends hjt
      have hfd := (d.addLabel.fresh_addLabel.extends hjt).bind
        (Nat.ne_of_lt d.fresh_addLabel.lt_size)
      have hfe := hfd.extends (elseExpr.extends_lower scope _)
      have he := h.of_bind hfe
      have hb := he.of_extends (elseExpr.extends_lower scope _)
      have hjts := hb.of_bind hfo
      have hts := hjts.of_emitWith
      have hjcs := hts.of_extends (thenExpr.extends_lower scope _)
      have hto := hb.bound hfo
      have hthen := thenExpr.codeAt_lower _ (hjc.pos hd) hts
      have helse := elseExpr.codeAt_lower _ (by exact hjt.pos hd) he
      simp only [Draft.size_bind, Draft.size_jump] at hto hthen helse
      exact .ternary (condition.codeAt_lower d.addLabel.addLabel hd hjcs.of_emitWith)
        (hjcs.jumpAt (hc.pos hd) hto) hthen (hjts.jumpAt (ht.pos hd) (h.bound hfe)) helse

theorem Callee.targetAt_lowerTarget (callee : Callee) (d : Draft) (hd : 0 < d.code.size)
    (h : (callee.lowerTarget scope d).Settled r) :
    callee.TargetAt scope r d.code.size (callee.lowerTarget scope d).code.size := by
  match callee with
  | .pointer target => exact .pointer (target.codeAt_lower d hd h)
  | .named _ => exact .named
  | .far _ _ => exact .far

theorem objectAt_lowerObject (object : Option Expr) (d : Draft) (hd : 0 < d.code.size)
    (h : (lowerObject scope object d).Settled r) :
    ObjectAt scope r object d.code.size (lowerObject scope object d).code.size := by
  match object with
  | none => exact .none
  | some e => exact .some (e.codeAt_lower d hd h)

theorem argsAt_lowerArgs (args : List Expr) (d : Draft) (hd : 0 < d.code.size)
    (h : (lowerArgs scope args d).Settled r) :
    ArgsAt scope r args d.code.size (lowerArgs scope args d).code.size := by
  match args with
  | [] => exact .nil
  | arg :: rest =>
      simp only [lowerArgs] at h ⊢
      have hdr := (extends_lowerArgs scope rest d).pos hd
      exact .cons (argsAt_lowerArgs rest d hd (h.of_extends (arg.extends_lower scope _)))
        (arg.codeAt_lower _ hdr h)

end

end Expressions

section Statements

variable {scope : Scope} {r : Routine}

theorem Expr.refAt_lowerRef {defining : Bool} (e : Expr) (d : Draft) (hd : 0 < d.code.size)
    (h : (e.lowerRef scope defining d).Settled r) :
    e.RefAt scope r d.code.size (e.lowerRef scope defining d).code.size := by
  match e with
  | .ident span name =>
      cases defining with
      | true =>
          simp only [Expr.lowerRef, if_true, Draft.size_emitSlot] at h ⊢
          have hname := h.of_emitWith.slot_of_defineSlot
          rw [Draft.size_defineSlot]
          have hslot := h.slotAt (by rwa [Draft.size_defineSlot]) hname
          rw [Draft.size_defineSlot] at hslot
          exact .ident hslot
      | false =>
          simp only [Expr.lowerRef, Bool.false_eq_true, if_false] at h ⊢
          split at h
          · rename_i slot hs
            rw [Draft.size_emitSlot]
            exact .ident (h.slotAt hd (h.of_emitWith.slot_of_find? hs))
          · exact h.not_report.elim
  | .field span base name =>
      simp only [Expr.lowerRef] at h ⊢
      by_cases hn : name = "size"
      · rw [if_pos hn] at h
        exact h.not_report.elim
      · rw [if_neg hn] at h ⊢
        have hdb := (base.extends_lower scope d).pos hd
        rw [Draft.size_emitWith]
        exact .field (base.codeAt_lower d hd h.of_emitWith) (h.emitted hdb)
  | .index _ base i =>
      simp only [Expr.lowerRef, Draft.size_emit] at h ⊢
      have hb := h.of_emitWith
      have hdi := (i.extends_lower scope d).pos hd
      have hdb := (base.extends_lowerRef scope defining _).pos hdi
      exact .index (i.codeAt_lower d hd (hb.of_extends (base.extends_lowerRef scope defining _)))
        (base.refAt_lowerRef _ hdi hb) (h.emitted hdb)
  | .int .. | .float .. | .text .. | .localized .. | .undefined _ | .bool .. | .level _ | .self _
  | .game _ | .anim _ | .emptyArray _ | .vector .. | .functionRef .. | .call .. | .unary ..
  | .binary .. | .ternary .. => exact (Draft.Settled.not_report h).elim

theorem guardAt_guard (d : Draft) {exit target : Nat} {condition : Option Expr}
    (hd : 0 < d.code.size) (h : (d.guard scope exit condition).Settled r)
    (ht : r.target? exit = some target) :
    GuardAt scope r target condition d.code.size (d.guard scope exit condition).code.size := by
  cases condition with
  | none => exact .none
  | some e =>
      simp only [Draft.guard] at h ⊢
      by_cases he : e.isAlwaysTrue = true
      · rw [if_pos he] at h ⊢
        exact .always he
      · rw [if_neg he] at h ⊢
        have hde := (e.extends_lower scope d).pos hd
        rw [Draft.size_jump]
        exact .test (e.codeAt_lower d hd h.of_emitWith) (h.jumpAt hde ht)

theorem storeAt_store {d : Draft} {slot : Nat} {name : String} (hd : 0 < d.code.size)
    (h : (d.store slot).Settled r) (hname : r.locals[slot]? = some name) :
    r.StoreAt d.code.size name := by
  have hs := h.of_emitWith
  refine ⟨hs.slotAt hd hname, ?_⟩
  have he := h.emitted (by simp)
  rwa [Draft.size_emitSlot] at he

theorem receiveAt_receive {d : Draft} {targets : List (Located String)} (hd : 0 < d.code.size)
    (h : (d.receive targets).Settled r) :
    ReceiveAt r targets d.code.size (d.receive targets).code.size := by
  induction targets generalizing d with
  | nil => exact .nil
  | cons v rest ih =>
      simp only [Draft.receive] at h ⊢
      have hs := h.of_extends ((Draft.Extends.refl _).receive rest)
      have hslot := hs.slotAt (by rwa [Draft.size_defineSlot]) hs.of_emitWith.slot_of_defineSlot
      have hrest := ih (by simp) h
      rw [Draft.size_emitSlot, Draft.size_defineSlot] at hrest
      rw [Draft.size_defineSlot] at hslot
      exact .cons hslot hrest

/-- The labels of a loop lead to its targets. -/
def LoopLabels.Lead (r : Routine) : Option LoopLabels → Option LoopTargets → Prop
  | none, none => True
  | some labels, some targets =>
      r.target? labels.breakTo = some targets.breakTo ∧
        r.target? labels.continueTo = some targets.continueTo
  | _, _ => False

/-- The labels of the innermost loop around do. -/
def Draft.Leads (d : Draft) (r : Routine) (targets : Option LoopTargets) : Prop :=
  LoopLabels.Lead r d.loops.head? targets

theorem Draft.Leads.of_loops_eq {targets : Option LoopTargets} {d d' : Draft}
    (h : d.Leads r targets) (hloops : d'.loops = d.loops) : d'.Leads r targets := by
  rw [Leads, hloops]
  exact h

theorem Draft.leads_enterLoop (d : Draft) {labels : LoopLabels} {breakTo continueTo : Nat}
    (hb : r.target? labels.breakTo = some breakTo)
    (hc : r.target? labels.continueTo = some continueTo) :
    (d.enterLoop labels).Leads r (some ⟨breakTo, continueTo⟩) :=
  ⟨hb, hc⟩

structure ArraySlots.Hold (slots : ArraySlots) (r : Routine) (array key : String) : Prop where
  array : r.locals[slots.array]? = some array
  key : r.locals[slots.key]? = some key

namespace ArraySlots

variable {array key : String} {d : Draft}

theorem size_define (d : Draft) (span : Span) : (define d span).2.code.size = d.code.size := by
  simp [define]

theorem size_first (slots : ArraySlots) (d : Draft) :
    (slots.first d).code.size = d.code.size + 6 := by
  simp [first]

theorem size_element (slots : ArraySlots) (exit : Nat) (d : Draft) :
    (slots.element exit d).code.size = d.code.size + 6 := by
  simp [element]

theorem size_advance (slots : ArraySlots) (d : Draft) :
    (slots.advance d).code.size = d.code.size + 5 := by
  simp [advance]

theorem hold_define (d : Draft) (span : Span) (h : (define d span).2.Settled r) :
    ∃ array key, (define d span).1.Hold r array key := by
  simp only [define] at h ⊢
  have ha := h.of_extends ((Draft.Extends.refl _).defineSlot _ _)
  exact ⟨_, _, ha.slot_of_defineSlot, h.slot_of_defineSlot⟩

theorem firstAt_first (slots : ArraySlots) (hd : 0 < d.code.size)
    (hs : slots.Hold r array key) (h : (slots.first d).Settled r) :
    FirstAt r array key d.code.size := by
  simp only [first] at h
  have hc := h.of_emitWith.of_emitWith
  have hp := hc.of_emitWith
  have hkey := storeAt_store (by simp) h hs.key
  have hcall := hc.emitted (by simp)
  have hpush := hp.slotAt (by simp) hs.array
  simp only [Draft.size_callBuiltin, Draft.size_emitSlot, Draft.size_store] at hkey hcall hpush
  exact ⟨storeAt_store hd hp.of_emitWith hs.array, hpush, hcall, hkey⟩

theorem elementAt_element (slots : ArraySlots) (hd : 0 < d.code.size) (exit : Nat) {target : Nat}
    (hs : slots.Hold r array key) (h : (slots.element exit d).Settled r)
    (ht : r.target? exit = some target) : ElementAt r array key target d.code.size := by
  simp only [element] at h
  have ha := h.of_emitWith
  have hk := ha.of_emitWith
  have hj := hk.of_emitWith
  have hc := hj.of_emitWith
  have hget := h.emitted (by simp)
  have harray := ha.slotAt (by simp) hs.array
  have hkey := hk.slotAt (by simp) hs.key
  have hleave := hj.jumpAt (by simp) ht
  have hcall := hc.emitted (by simp)
  simp only [Draft.size_callBuiltin, Draft.size_emitSlot] at hcall hleave
  simp only [Draft.size_callBuiltin, Draft.size_emitSlot, Draft.size_jump] at hget harray hkey
  exact ⟨hc.of_emitWith.slotAt hd hs.key, hcall, hleave, hkey, harray, hget⟩

theorem advanceAt_advance (slots : ArraySlots) (hd : 0 < d.code.size)
    (hs : slots.Hold r array key) (h : (slots.advance d).Settled r) :
    AdvanceAt r array key d.code.size := by
  simp only [advance] at h
  have hc := h.of_emitWith.of_emitWith
  have ha := hc.of_emitWith
  have hkey := storeAt_store (by simp) h hs.key
  have hcall := hc.emitted (by simp)
  have harray := ha.slotAt (by simp) hs.array
  simp only [Draft.size_callBuiltin, Draft.size_emitSlot] at hkey hcall harray
  exact ⟨ha.of_emitWith.slotAt hd hs.key, harray, hcall, hkey⟩

end ArraySlots

theorem assignAt_lower {targets : Option LoopTargets} {span : Span} {target value : Expr}
    {op : AssignOp} {d : Draft} (hd : 0 < d.code.size)
    (h : (op.lower scope span target value d).Settled r) :
    Stmt.CodeAt scope r targets (.assign span target op value) d.code.size
      (op.lower scope span target value d).code.size := by
  cases op with
  | assign =>
      simp only [AssignOp.lower, Draft.size_emit] at h ⊢
      have ht := h.of_emitWith
      have hdv := (value.extends_lower scope d).pos hd
      have hdt := (target.extends_lowerRef scope true _).pos hdv
      exact .assign (value.codeAt_lower d hd (ht.of_extends (target.extends_lowerRef scope true _)))
        (target.refAt_lowerRef _ hdv ht) (h.emitted hdt)
  | compound op =>
      simp only [AssignOp.lower, Draft.size_emit] at h ⊢
      have ht := h.of_emitWith
      have ho := ht.of_extends (target.extends_lowerRef scope false _)
      cases hop : op.opcode? with
      | none =>
          simp only [hop] at ho
          exact ho.not_report.elim
      | some opcode =>
          simp only [hop] at h ht ho ⊢
          have hv := ho.of_emitWith
          have hdt := (target.extends_lower scope d).pos hd
          have hdv := (value.extends_lower scope _).pos hdt
          have hdo := (Draft.Extends.emit (.refl _) opcode).pos hdv
          have hdr := (target.extends_lowerRef scope false _).pos hdo
          have href := target.refAt_lowerRef _ hdo ht
          rw [Draft.size_emit] at href
          have htarget := target.codeAt_lower d hd (hv.of_extends (value.extends_lower scope _))
          exact .compound hop htarget (value.codeAt_lower _ hdt hv) (ho.emitted hdv) href
            (h.emitted hdr)

theorem waitTillAt_lower {targets : Option LoopTargets} {span : Span} {object event : Expr}
    {names : List (Located String)} {d : Draft} (hd : 0 < d.code.size)
    (h : ((Stmt.waitTill span object event names).lower scope d).Settled r) :
    Stmt.CodeAt scope r targets (.waitTill span object event names) d.code.size
      ((Stmt.waitTill span object event names).lower scope d).code.size := by
  simp only [Stmt.lower, Draft.size_emit] at h ⊢
  have hr := h.of_emitWith
  have hw := hr.of_extends ((Draft.Extends.refl _).receive names)
  have ho := hw.of_emitWith
  have hde := (event.extends_lower scope d).pos hd
  have hdo := (object.extends_lower scope _).pos hde
  have hreceive := receiveAt_receive (by simp) hr
  rw [Draft.size_emit] at hreceive
  have hdr := ((Draft.Extends.emit (.refl _) .waitTill).receive names).pos hdo
  exact .waitTill (event.codeAt_lower d hd (ho.of_extends (object.extends_lower scope _)))
    (object.codeAt_lower _ hde ho) (hw.emitted hdo) hreceive (h.emitted hdr)

theorem notifyAt_lower {targets : Option LoopTargets} {span : Span} {object event : Expr}
    {args : List Expr} {d : Draft} (hd : 0 < d.code.size)
    (h : ((Stmt.notify span object event args).lower scope d).Settled r) :
    Stmt.CodeAt scope r targets (.notify span object event args) d.code.size
      ((Stmt.notify span object event args).lower scope d).code.size := by
  simp only [Stmt.lower, Draft.size_emit] at h ⊢
  have ho := h.of_emitWith
  have he := ho.of_extends (object.extends_lower scope _)
  have ha := he.of_extends (event.extends_lower scope _)
  have hp := ha.of_extends (extends_lowerArgs scope args _)
  by_cases hlimit : argumentLimit < args.length
  · rw [if_pos hlimit] at hp
    exact hp.of_emitWith.not_report.elim
  · simp only [if_neg hlimit] at h ho he ha hp ⊢
    have hdp := (Draft.Extends.emit (.refl d) .preScriptCall).pos hd
    have hda := (extends_lowerArgs scope args _).pos hdp
    have hde := (event.extends_lower scope _).pos hda
    have hdo := (object.extends_lower scope _).pos hde
    have hargs := argsAt_lowerArgs args _ hdp ha
    rw [Draft.size_emit] at hargs
    exact .notify (hp.emitted hd) hargs (event.codeAt_lower _ hda he)
      (object.codeAt_lower _ hde ho) (h.emitted hdo)

/-- A loop over an array leaves its code if its body does, wherever that is lowered. -/
theorem Stmt.codeAt_foreach {targets : Option LoopTargets} {span : Span}
    {item : Located String} {e : Expr} {body : Stmt} {d : Draft} (hd : 0 < d.code.size)
    (hbody : ∀ {targets : Option LoopTargets} (d : Draft),
      0 < d.code.size → d.Leads r targets → (body.lower scope d).Settled r →
        body.CodeAt scope r targets d.code.size (body.lower scope d).code.size)
    (h : ((Stmt.foreach span item e body).lower scope d).Settled r) :
    (Stmt.foreach span item e body).CodeAt scope r targets d.code.size
      ((Stmt.foreach span item e body).lower scope d).code.size := by
  simp only [Stmt.lower, Draft.size_bind, Draft.size_jump] at h ⊢
  have hhold := ArraySlots.hold_define (r := r) d e.span
  have hsize := ArraySlots.size_define d e.span
  generalize ArraySlots.define d e.span = p at h hhold hsize ⊢
  obtain ⟨slots, d₁⟩ := p
  dsimp only at h hhold hsize ⊢
  rw [← hsize] at hd ⊢
  have hde := (e.extends_lower scope d₁).pos hd
  have hf := (Draft.Extends.refl (e.lower scope d₁)).first slots
  have hsize₃ := slots.size_first (e.lower scope d₁)
  generalize hg₃ : slots.first (e.lower scope d₁) = d₃ at h hf hsize₃ ⊢
  have hd₃ : 0 < d₃.code.size := hf.pos hde
  have hel := (Draft.Extends.refl (d₃.addLabel.addLabel.addLabel.bind d₃.nextLabel)).element
    slots (d₃.nextLabel + 2)
  have hsize₄ := slots.size_element (d₃.nextLabel + 2)
    (d₃.addLabel.addLabel.addLabel.bind d₃.nextLabel)
  generalize hg₄ : slots.element (d₃.nextLabel + 2)
    (d₃.addLabel.addLabel.addLabel.bind d₃.nextLabel) = d₄ at h hel hsize₄ ⊢
  have hd₄ : 0 < d₄.code.size := hel.pos hd₃
  have hst := ((Draft.Extends.refl d₄).defineSlot item.value item.span).store
    (d₄.defineSlot item.value item.span).1
  have hloop := (hel.trans hst).body
    (body.extends_lower scope (Draft.enterLoop _ ⟨d₃.nextLabel + 2, d₃.nextLabel + 1⟩))
  have hadv := fun d' => (Draft.Extends.refl d').advance slots
  obtain ⟨hj, hb, hstart, hnext, hexit⟩ := h.of_stepLoop hloop (hadv _)
  have hs := (hb.of_leaveLoop.of_extends (body.extends_lower scope _)).of_enterLoop
  have h₄ := hs.of_extends hst
  have h₃ := ((h₄.of_extends hel).of_bind d₃.fresh_addLabel_thrice.1).of_extends
    (.addLabel (.addLabel (.addLabel (.refl d₃))))
  have hcode := h₃.of_extends hf
  obtain ⟨array, key, hold⟩ := hhold (hcode.of_extends (e.extends_lower scope d₁))
  have hstore := storeAt_store (by simpa using hd₄) hs
    hs.of_emitWith.of_emitWith.slot_of_defineSlot
  have hinner := hbody _ (by exact hst.pos hd₄) (Draft.leads_enterLoop _ hexit hnext)
    hb.of_leaveLoop
  have hjump := hj.jumpAt (by exact (hadv _).pos (hloop.pos hd₃)) hstart
  have helem := ArraySlots.elementAt_element slots (by exact hd₃) _ hold (hg₄ ▸ h₄) hexit
  have hadvance := ArraySlots.advanceAt_advance slots (by exact hloop.pos hd₃) hold
    hj.of_emitWith
  simp only [ArraySlots.size_advance, Draft.size_bind, Draft.size_addLabel, Draft.size_store,
    Draft.size_defineSlot, Draft.size_jump, Draft.size_enterLoop, Draft.size_leaveLoop, hsize₃,
    hsize₄] at hstore hinner hjump helem hadvance
  rw [ArraySlots.size_advance, Draft.size_bind, Draft.size_leaveLoop]
  exact .foreach (e.codeAt_lower d₁ hd hcode)
    (ArraySlots.firstAt_first slots hde hold (hg₃ ▸ h₃)) helem hstore hinner hadvance hjump

mutual

theorem Stmt.codeAt_lower {targets : Option LoopTargets} (s : Stmt)
    (d : Draft) (hd : 0 < d.code.size) (hl : d.Leads r targets)
    (h : (s.lower scope d).Settled r) :
    s.CodeAt scope r targets d.code.size (s.lower scope d).code.size := by
  match s with
  | .block _ body =>
      simp only [Stmt.lower] at h ⊢
      exact .block (bodyAt_lowerBody body d hd hl h)
  | .ifElse _ e yes none =>
      simp only [Stmt.lower, Draft.size_bind] at h ⊢
      have he := e.extends_lower scope d.addLabel
      have hj := he.jump .jumpOnFalse d.nextLabel
      have hf := d.fresh_addLabel.extends (hj.trans (yes.extends_lower scope _))
      have hy := h.of_bind hf
      have hjs := hy.of_extends (yes.extends_lower scope _)
      have hyes := yes.codeAt_lower _ (hj.pos hd) (hl.of_loops_eq hj.loops) hy
      rw [Draft.size_jump] at hyes
      exact .ifThen (e.codeAt_lower d.addLabel hd hjs.of_emitWith)
        (hjs.jumpAt (he.pos hd) (h.bound hf)) hyes
  | .ifElse _ e yes (some no) =>
      simp only [Stmt.lower, Draft.size_bind] at h ⊢
      have he := e.extends_lower scope d.addLabel
      have hj := he.jump .jumpOnFalse d.nextLabel
      have hyes := hj.trans (yes.extends_lower scope _)
      have hfo := d.fresh_addLabel.extends hyes
      obtain ⟨hn, hjd, hto, htd⟩ := h.of_else hfo (no.extends_lower scope _)
      have hy := hjd.of_emitWith.of_extends (.addLabel (.refl _))
      have hjs := hy.of_extends (yes.extends_lower scope _)
      have hthen := yes.codeAt_lower _ (hj.pos hd) (hl.of_loops_eq hj.loops) hy
      have helse := no.codeAt_lower _ (by simp) (by exact hl.of_loops_eq hyes.loops) hn
      simp only [Draft.size_bind, Draft.size_jump, Draft.size_addLabel] at hto hthen helse
      exact .ifElse (e.codeAt_lower d.addLabel hd hjs.of_emitWith) (hjs.jumpAt (he.pos hd) hto)
        hthen (hjd.jumpAt (hyes.pos hd) htd) helse
  | .whileLoop _ e body =>
      simp only [Stmt.lower, Draft.size_bind, Draft.size_jump] at h ⊢
      have hg := Draft.Extends.guard (.refl (d.addLabel.addLabel.bind d.nextLabel)) scope
        (d.nextLabel + 1) (some e)
      have hbody := hg.body
        (body.extends_lower scope (Draft.enterLoop _ ⟨d.nextLabel + 1, d.nextLabel⟩))
      obtain ⟨hj, hstart, hexit⟩ := h.of_loop hbody
      have hb := hj.of_emitWith.of_leaveLoop
      rw [Draft.size_jump] at hexit
      exact .whileLoop
        (guardAt_guard (d.addLabel.addLabel.bind d.nextLabel) hd
          (hb.of_extends (body.extends_lower scope _)).of_enterLoop hexit)
        (body.codeAt_lower _ (by exact hg.pos hd) (Draft.leads_enterLoop _ hexit hstart) hb)
        (hj.jumpAt (hbody.pos hd) hstart)
  | .forLoop _ init e step body =>
      simp only [Stmt.lower, Draft.size_bind, Draft.size_jump] at h ⊢
      have hei := extends_lowerClause scope init d
      have hdi := hei.pos hd
      have hinit := clauseAt_lowerClause init d hd hl
      -- From here on only what the first clause leaves behind matters.
      generalize lowerClause scope init d = d₁ at h hei hdi hinit ⊢
      have hg := Draft.Extends.guard (.refl (d₁.addLabel.addLabel.addLabel.bind d₁.nextLabel))
        scope (d₁.nextLabel + 2) e
      have hbody := hg.body
        (body.extends_lower scope (Draft.enterLoop _ ⟨d₁.nextLabel + 2, d₁.nextLabel + 1⟩))
      have hstep := extends_lowerClause scope step
      obtain ⟨hj, hb, hstart, hnext, hexit⟩ := h.of_stepLoop hbody (hstep _)
      have hgs := (hb.of_leaveLoop.of_extends (body.extends_lower scope _)).of_enterLoop
      have hs := (hgs.of_extends hg).of_bind d₁.fresh_addLabel_thrice.1
      rw [Draft.size_jump] at hexit
      have hin := body.codeAt_lower _ (by exact hg.pos hdi) (Draft.leads_enterLoop _ hexit hnext)
        hb.of_leaveLoop
      exact .forLoop (hinit (hs.of_extends (.addLabel (.addLabel (.addLabel (.refl d₁))))))
        (guardAt_guard (d₁.addLabel.addLabel.addLabel.bind d₁.nextLabel) hdi hgs hexit)
        hin
        (clauseAt_lowerClause step _ (by exact hbody.pos hdi)
          (by exact hl.of_loops_eq (hbody.loops.trans hei.loops)) hj.of_emitWith)
        (hj.jumpAt (by exact (hstep _).pos (hbody.pos hdi)) hstart)
  | .foreach _ item e body => exact Stmt.codeAt_foreach hd body.codeAt_lower h
  | .ret _ none =>
      simp only [Stmt.lower, Draft.size_emit] at h ⊢
      exact .finish (h.emitted hd)
  | .ret _ (some e) =>
      simp only [Stmt.lower, Draft.size_emit] at h ⊢
      exact .giveBack (e.codeAt_lower d hd h.of_emitWith)
        (h.emitted ((e.extends_lower scope d).pos hd))
  | .wait _ e =>
      simp only [Stmt.lower, Draft.size_emit] at h ⊢
      exact .wait (e.codeAt_lower d hd h.of_emitWith)
        (h.emitted ((e.extends_lower scope d).pos hd))
  | .waitFrame _ =>
      simp only [Stmt.lower, Draft.size_emit] at h ⊢
      exact .waitFrame (h.emitted hd)
  | .breakLoop _ =>
      simp only [Stmt.lower] at h ⊢
      rw [Draft.Leads] at hl
      match d.loops.head?, targets, hl, h with
      | some labels, some targets, hl, h =>
          rw [Draft.size_jump]
          exact .breakLoop (h.jumpAt hd hl.1)
      | none, _, _, h => exact (Draft.Settled.not_report h).elim
  | .continueLoop _ =>
      simp only [Stmt.lower] at h ⊢
      rw [Draft.Leads] at hl
      match d.loops.head?, targets, hl, h with
      | some labels, some targets, hl, h =>
          rw [Draft.size_jump]
          exact .continueLoop (h.jumpAt hd hl.2)
      | none, _, _, h => exact (Draft.Settled.not_report h).elim
  | .waitTill .. => exact waitTillAt_lower hd h
  | .notify .. => exact notifyAt_lower hd h
  | .endOn _ object event =>
      simp only [Stmt.lower, Draft.size_emit] at h ⊢
      have ho := h.of_emitWith
      have hde := (event.extends_lower scope d).pos hd
      have hdo := (object.extends_lower scope _).pos hde
      exact .endOn (event.codeAt_lower d hd (ho.of_extends (object.extends_lower scope _)))
        (object.codeAt_lower _ hde ho) (h.emitted hdo)
  | .assign span target op value => exact assignAt_lower hd h
  | .incDec _ target increment =>
      simp only [Stmt.lower, Draft.size_emit] at h ⊢
      exact .incDec (target.refAt_lowerRef d hd h.of_emitWith)
        (h.emitted ((target.extends_lowerRef scope false d).pos hd))
  | .expr _ value =>
      cases value with
      | call span object thread callee args =>
          simp only [Stmt.lower, Draft.size_emit] at h ⊢
          exact .expr (Expr.codeAt_lower _ d hd h.of_emitWith)
            (h.emitted ((Expr.extends_lower scope _ d).pos hd))
      | _ => exact (Draft.Settled.not_report h).elim
  | .empty _ => exact .empty

theorem bodyAt_lowerBody {targets : Option LoopTargets}
    (body : List Stmt) (d : Draft) (hd : 0 < d.code.size) (hl : d.Leads r targets)
    (h : (lowerBody scope body d).Settled r) :
    BodyAt scope r targets body d.code.size (lowerBody scope body d).code.size := by
  match body with
  | [] => exact .nil
  | s :: rest =>
      simp only [lowerBody] at h ⊢
      have hs := s.extends_lower scope d
      exact .cons (s.codeAt_lower d hd hl (h.of_extends (extends_lowerBody scope rest _)))
        (bodyAt_lowerBody rest _ (hs.pos hd) (hl.of_loops_eq hs.loops) h)

theorem clauseAt_lowerClause {targets : Option LoopTargets}
    (clause : Option Stmt) (d : Draft) (hd : 0 < d.code.size) (hl : d.Leads r targets)
    (h : (lowerClause scope clause d).Settled r) :
    ClauseAt scope r targets clause d.code.size (lowerClause scope clause d).code.size := by
  match clause with
  | none => exact .none
  | some s => exact .some (s.codeAt_lower d hd hl h)

end

end Statements

/-! ## Functions -/

theorem Draft.extends_defineParams (seen : List String) (params : List (Located String))
    (d : Draft) : d.Extends (defineParams seen params d) := by
  induction params generalizing seen d with
  | nil => exact .refl d
  | cons p rest ih =>
      unfold defineParams
      split
      · exact ((Extends.refl d).report _ _).trans (ih _ _)
      · exact ((Extends.refl d).defineSlot _ _).trans (ih _ _)

theorem Draft.size_defineParams (seen : List String) (params : List (Located String))
    (d : Draft) : (defineParams seen params d).code.size = d.code.size := by
  induction params generalizing seen d with
  | nil => rfl
  | cons p rest ih =>
      unfold defineParams
      split
      · exact ih _ _
      · rw [ih, size_defineSlot]

theorem Slots.valid_empty : Slots.empty.Valid := ⟨List.nodup_nil, Nat.zero_le _⟩

theorem Draft.settled_toRoutine {d : Draft} (name : String) (params : Nat)
    (hv : d.slots.Valid) (hf : d.findings.toList = []) : d.Settled (d.toRoutine name params) := by
  refine ⟨fun i ins hi hins => ?_, fun l i hl => ?_, List.prefix_rfl, hv.size_le, hf⟩
  · obtain ⟨k, rfl⟩ : ∃ k, i = k + 1 := ⟨i - 1, by omega⟩
    rw [toRoutine, List.getElem?_cons_succ, List.getElem?_drop, Nat.add_comm]
    exact hins
  · rw [Routine.target?, toRoutine, hl]
    rfl

theorem Function.codeOf_lower {scope : Scope} {f : Function} (h : (f.lower scope).2 = []) :
    ∃ last, (f.lower scope).1.CodeOf scope f last := by
  unfold Function.lower at h ⊢
  dsimp only at h ⊢
  have hstart := Draft.extends_defineParams [] f.params .empty
  have hsize := Draft.size_defineParams [] f.params .empty
  generalize Draft.defineParams [] f.params .empty = start at h hstart hsize ⊢
  have hbody := extends_lowerBody scope f.body (start.emit .createLocalVariables)
  have hfirst : (start.emit .createLocalVariables).code.size = 1 := by
    rw [Draft.size_emit, hsize]
    rfl
  have hv := (((hstart.emit .createLocalVariables).trans hbody).emit .finish).valid
    Slots.valid_empty
  have hs := Draft.settled_toRoutine f.name start.slots.size hv h
  have hlead : ∀ r, (start.emit .createLocalVariables).Leads r none := by
    intro r
    exact Draft.Leads.of_loops_eq (d := .empty) trivial hstart.loops
  have hcode := bodyAt_lowerBody f.body _ (by omega) (hlead _) hs.of_emitWith
  rw [hfirst] at hcode
  refine ⟨_, ⟨_, rfl⟩, hcode, hs.emitted (hbody.pos (by omega)), ?_, hv.nodup, hv.size_le⟩
  rw [Draft.toRoutine, List.length_cons, List.length_drop, Array.length_toList, Draft.size_emit]
  omega

/-! ## Scripts -/

theorem Script.firsts_of_duplicates {seen : List String} {functions : List Function}
    (h : duplicates seen functions = []) : firsts seen functions = functions := by
  induction functions generalizing seen with
  | nil => rfl
  | cons f rest ih =>
      unfold duplicates at h
      unfold firsts
      split at h
      · cases h
      · rename_i hseen
        rw [if_neg hseen, ih h]

/-- Without findings every function of a script becomes a routine, in order. -/
theorem Script.lower_of_no_findings {name : String} {s : Script} (h : (s.lower name).2 = []) :
    (s.lower name).1.routines = s.functions.map (fun f => (f.lower s.scope).1) ∧
      ∀ f ∈ s.functions, (f.lower s.scope).2 = [] := by
  unfold Script.lower at h ⊢
  dsimp only at h ⊢
  obtain ⟨hrepeated, hfindings⟩ := List.append_eq_nil_iff.1 h
  rw [Script.firsts_of_duplicates (List.map_eq_nil_iff.1 hrepeated)] at hfindings ⊢
  refine ⟨by rw [List.map_map]; rfl, fun f hf => ?_⟩
  exact List.flatMap_eq_nil_iff.1 hfindings _ (List.mem_map_of_mem hf)

end Gsc
