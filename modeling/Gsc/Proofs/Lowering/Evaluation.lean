import Gsc.Proofs.Lowering.Emission
import Gsc.Proofs.Lowering.Visits

/-! # What lowering an expression does

`Evaluates` says all that matters about variables when an expression is lowered: no slot changes,
the instructions touch no variable unless they read one that the expression names, the functions
they call by name are there, and everything that is wrong on the way is reported.
-/

namespace Gsc

/-! ## Instructions -/

namespace Opcode

def onSlot : Opcode → Bool
  | evalLocal | evalLocalRef | safeSetWaittillVariable => true
  | _ => false

def onScript : Opcode → Bool
  | scriptLocalCall | scriptLocalMethodCall | scriptLocalThreadCall | scriptLocalMethodThreadCall
  | getLocalFunction => true
  | _ => false

/-- Instructions that name neither a variable nor a function of the script or of the engine. -/
def plain (opcode : Opcode) : Bool :=
  !opcode.onSlot && !opcode.onScript && opcode ≠ callBuiltin && opcode ≠ callBuiltinMethod

end Opcode

namespace Instruction

/-- The first operand is a name with a property. -/
def Names (i : Instruction) (known : String → Prop) : Prop :=
  ∃ name rest, i.operands = .text name :: rest ∧ known name

/-- What the instruction calls by name is there. -/
structure Closed (scope : Scope) (i : Instruction) : Prop where
  script : i.opcode.onScript = true → i.Names (scope.declares · = true)
  builtin : i.opcode = .callBuiltin → i.Names (isBuiltin false · = true)
  method : i.opcode = .callBuiltinMethod → i.Names (isBuiltin true · = true)

/-- The instruction touches no variable, and what it calls by name is there. -/
structure Inert (scope : Scope) (i : Instruction) : Prop where
  offSlot : i.opcode.onSlot = false
  closed : i.Closed scope

variable {scope : Scope} {i : Instruction}

theorem inert_of_plain (h : i.opcode.plain = true) : i.Inert scope := by
  simp only [Opcode.plain, Bool.and_eq_true, Bool.not_eq_true', decide_eq_true_eq] at h
  obtain ⟨⟨⟨hslot, hscript⟩, hbuiltin⟩, hmethod⟩ := h
  refine ⟨hslot, fun hs => ?_, fun hb => (hbuiltin hb).elim, fun hm => (hmethod hm).elim⟩
  rw [hscript] at hs
  cases hs

theorem inert_of_constant? {n : Int} (h : i.constant? = some n) : i.Inert scope := by
  apply inert_of_plain
  cases pushes_of_constant? h <;> rfl

theorem inert_callBuiltin {name : String} (h : isBuiltin false name = true)
    (rest : List Operand) : Inert scope ⟨.callBuiltin, .text name :: rest⟩ := by
  refine ⟨rfl, fun hs => ?_, fun _ => ⟨name, rest, rfl, h⟩, fun hm => ?_⟩
  · cases hs
  · cases hm

theorem inert_callBuiltinMethod {name : String} (h : isBuiltin true name = true)
    (rest : List Operand) : Inert scope ⟨.callBuiltinMethod, .text name :: rest⟩ := by
  refine ⟨rfl, fun hs => ?_, fun hb => ?_, fun _ => ⟨name, rest, rfl, h⟩⟩
  · cases hs
  · cases hb

theorem inert_onScript {opcode : Opcode} {name : String} (ho : opcode.onScript = true)
    (h : scope.declares name = true) (rest : List Operand) :
    Inert scope ⟨opcode, .text name :: rest⟩ := by
  cases opcode with
  | scriptLocalCall | scriptLocalMethodCall | scriptLocalThreadCall | scriptLocalMethodThreadCall
  | getLocalFunction =>
      refine ⟨rfl, fun _ => ⟨name, rest, rfl, h⟩, fun hb => ?_, fun hm => ?_⟩
      · cases hb
      · cases hm
  | _ => cases ho

theorem closed_of_onSlot (h : i.opcode.onSlot = true) : i.Closed scope := by
  obtain ⟨opcode, operands⟩ := i
  cases opcode with
  | evalLocal | evalLocalRef | safeSetWaittillVariable =>
      refine ⟨fun hs => ?_, fun hb => ?_, fun hm => ?_⟩
      · cases hs
      · cases hb
      · cases hm
  | _ => cases h

end Instruction

/-- The instruction of a call that can be made names what is there. -/
theorem CallPlan.inert_of_make {scope : Scope} {onObject thread : Bool} {count : UInt8}
    {callee : Callee} {plan : CallPlan}
    (h : make scope onObject thread count callee = .ok plan) :
    Instruction.Inert scope ⟨plan.opcode, plan.operands⟩ := by
  unfold make at h
  split at h
  · rename_i name
    by_cases hn : scope.declares name = true
    · rw [if_pos hn] at h
      cases h
      have ho : (select thread onObject .scriptLocalCall .scriptLocalMethodCall
          .scriptLocalThreadCall .scriptLocalMethodThreadCall).onScript = true := by
        cases thread <;> cases onObject <;> rfl
      cases thread
      · exact Instruction.inert_onScript ho hn []
      · exact Instruction.inert_onScript ho hn [.byte count]
    · rw [if_neg hn] at h
      by_cases hb : isBuiltin onObject name = true
      · rw [if_neg (by simp [hb])] at h
        by_cases ht : thread = true
        · rw [if_pos ht] at h
          cases h
        · rw [if_neg ht] at h
          cases h
          cases onObject
          · exact Instruction.inert_callBuiltin hb _
          · exact Instruction.inert_callBuiltinMethod hb _
      · rw [if_pos (by simp [hb])] at h
        cases h
  · cases h
    exact Instruction.inert_of_plain (by cases thread <;> cases onObject <;> rfl)
  · cases h
    exact Instruction.inert_of_plain (by cases thread <;> cases onObject <;> rfl)

theorem BinaryOp.plain_of_opcode? {op : BinaryOp} {opcode : Opcode}
    (h : op.opcode? = some opcode) : opcode.plain = true := by
  cases op <;> cases h <;> rfl

/-! ## What is reported -/

def IsWord (n : Int) : Prop := -2147483648 ≤ n ∧ n ≤ 2147483647

instance (n : Int) : Decidable (IsWord n) := inferInstanceAs (Decidable (_ ∧ _))

theorem Instruction.isWord_of_constant? {i : Instruction} {n : Int} (h : i.constant? = some n) :
    IsWord n := by
  obtain ⟨hlow, hhigh⟩ := constant?_bounds h
  exact ⟨hlow, by omega⟩

/-- Whatever is wrong with a visit is among the findings. -/
def Visit.Answered (slots : Slots) (findings : List Finding) : Visit → Prop
  | .use (.read span name) =>
    slots.find? name = none → ⟨.usedBeforeAssigned name, span⟩ ∈ findings
  | .use (.literal span value) =>
    ¬ IsWord value → ∃ shown, ⟨.integerTooWide shown, span⟩ ∈ findings
  | .use (.condition ..) | .use (.define _) => True
  | .refusal finding _ => finding ∈ findings

theorem Slots.find?_eq_none_iff {slots : Slots} {name : String} :
    slots.find? name = none ↔ name ∉ slots.names.toList := by
  rw [find?_eq, List.idxOf?_eq_none_iff]

theorem Visit.Answered.mono {slots slots' : Slots} {findings findings' : List Finding} {v : Visit}
    (h : v.Answered slots findings) (hs : slots.names.toList <+: slots'.names.toList)
    (hf : findings <+: findings') : v.Answered slots' findings' := by
  match v with
  | .use (.read span name) =>
      intro hn
      rw [Slots.find?_eq_none_iff] at hn
      exact hf.subset (h (Slots.find?_eq_none_iff.2 fun hmem => hn (hs.subset hmem)))
  | .use (.literal span value) =>
      intro hw
      obtain ⟨shown, hshown⟩ := h hw
      exact ⟨shown, hf.subset hshown⟩
  | .use (.condition ..) | .use (.define _) => trivial
  | .refusal finding skipped => exact hf.subset h

/-! ## Drafts -/

/-- An instruction that pushes a variable which one of the visits reads. -/
def Instruction.Reads (slots : Slots) (visits : List Visit) (i : Instruction) : Prop :=
  ∃ span name slot, .use (.read span name) ∈ visits ∧ slots.find? name = some slot ∧
    i = ⟨.evalLocal, [.byte slot.toUInt8]⟩

namespace Draft

/-- The second draft comes from the first by lowering what has the given visits. -/
structure Evaluates (scope : Scope) (visits : List Visit) (d d' : Draft) : Prop where
  slots : d'.slots = d.slots
  arrayLoops : d'.arrayLoops = d.arrayLoops
  code : ∃ added, d'.code.toList = d.code.toList ++ added ∧
    ∀ i ∈ added, i.Inert scope ∨ i.Reads d.slots visits
  findings : d.findings.toList <+: d'.findings.toList
  answered : ∀ v ∈ visits, v.Answered d.slots d'.findings.toList

variable {scope : Scope} {visits more : List Visit} {d d' d'' : Draft}

/-! ### Single steps -/

/-- A step that leaves the code as it is. -/
theorem evaluates_of_code_eq (hslots : d'.slots = d.slots) (hloops : d'.arrayLoops = d.arrayLoops)
    (hcode : d'.code = d.code) (hf : d.findings.toList <+: d'.findings.toList)
    (ha : ∀ v ∈ visits, v.Answered d.slots d'.findings.toList) :
    d.Evaluates scope visits d' :=
  ⟨hslots, hloops, ⟨[], by rw [hcode, List.append_nil], by simp⟩, hf, ha⟩

theorem evaluates_report (d : Draft) (defect : Defect) (span : Span)
    (ha : ∀ v ∈ visits, ∀ findings, ⟨defect, span⟩ ∈ findings → v.Answered d.slots findings) :
    d.Evaluates scope visits (d.report defect span) :=
  evaluates_of_code_eq rfl rfl rfl (by simp [report]) fun v hv => ha v hv _ (by simp [report])

theorem evaluates_emitWith (d : Draft) {opcode : Opcode} {operands : List Operand}
    (hi : Instruction.Inert scope ⟨opcode, operands⟩ ∨
      Instruction.Reads d.slots visits ⟨opcode, operands⟩)
    (ha : ∀ v ∈ visits, v.Answered d.slots d.findings.toList) :
    d.Evaluates scope visits (d.emitWith opcode operands) := by
  refine ⟨rfl, rfl, ⟨[⟨opcode, operands⟩], by simp [emitWith], ?_⟩, List.prefix_rfl, ha⟩
  intro i hi'
  rw [List.mem_singleton.1 hi']
  exact hi

/-- A number is pushed or reported. -/
theorem evaluates_pushInt (d : Draft) {value : Int64} {n : Int} (span : Span)
    (hn : ∀ i : Instruction, i.constant? = some value.toInt → IsWord n) :
    d.Evaluates scope [.use (.literal span n)] (d.pushInt value span) := by
  rcases pushInt_cases d value span with ⟨i, hi, he⟩ | ⟨-, he⟩
  · rw [he]
    refine evaluates_emitWith d (.inl (Instruction.inert_of_constant? hi)) ?_
    simp [Visit.Answered, hn i hi]
  · rw [he]
    refine evaluates_report d _ _ ?_
    simp only [List.mem_singleton, forall_eq, Visit.Answered]
    exact fun findings hmem _ => ⟨_, hmem⟩

/-- A variable is pushed or reported. -/
theorem evaluates_ident (d : Draft) (span : Span) (name : String) :
    d.Evaluates scope [.use (.read span name)]
      (match d.slots.find? name with
        | some slot => d.emitSlot .evalLocal slot
        | none => d.report (.usedBeforeAssigned name) span) := by
  cases hs : d.slots.find? name with
  | some slot =>
      refine evaluates_emitWith d (.inr ⟨span, name, slot, List.mem_singleton_self _, hs, rfl⟩) ?_
      simp [Visit.Answered, hs]
  | none =>
      refine evaluates_report d _ _ ?_
      simp only [List.mem_singleton, forall_eq, Visit.Answered]
      exact fun findings hmem _ => hmem

/-- A part is refused. -/
theorem evaluates_refusal (d : Draft) (defect : Defect) (span : Span) (skipped : List Use) :
    d.Evaluates scope [.refusal ⟨defect, span⟩ skipped] (d.report defect span) := by
  refine evaluates_report d _ _ ?_
  simp only [List.mem_singleton, forall_eq, Visit.Answered]
  exact fun findings hmem => hmem

namespace Evaluates

theorem refl (d : Draft) : d.Evaluates scope [] d :=
  evaluates_of_code_eq rfl rfl rfl List.prefix_rfl (by simp)

/-! ### One step after the other -/

theorem trans (h : d.Evaluates scope visits d') (h' : d'.Evaluates scope more d'') :
    d.Evaluates scope (visits ++ more) d'' := by
  obtain ⟨added, hadded, hall⟩ := h.code
  obtain ⟨added', hadded', hall'⟩ := h'.code
  refine ⟨h'.slots.trans h.slots, h'.arrayLoops.trans h.arrayLoops, ⟨added ++ added', ?_, ?_⟩,
    h.findings.trans h'.findings, ?_⟩
  · rw [hadded', hadded, List.append_assoc]
  · intro i hi
    rcases List.mem_append.1 hi with hi | hi
    · refine (hall i hi).imp_right ?_
      rintro ⟨span, name, slot, hv, hrest⟩
      exact ⟨span, name, slot, List.mem_append_left _ hv, hrest⟩
    · refine (hall' i hi).imp_right ?_
      rintro ⟨span, name, slot, hv, hrest⟩
      rw [h.slots] at hrest
      exact ⟨span, name, slot, List.mem_append_right _ hv, hrest⟩
  · intro v hv
    rcases List.mem_append.1 hv with hv | hv
    · exact (h.answered v hv).mono List.prefix_rfl h'.findings
    · have ha := h'.answered v hv
      rwa [h.slots] at ha

/-- A step that no visit tells of. -/
theorem step (h : d.Evaluates scope visits d') (h' : d'.Evaluates scope [] d'') :
    d.Evaluates scope visits d'' := by
  have ht := h.trans h'
  rwa [List.append_nil] at ht

theorem emitWith {opcode : Opcode} {operands : List Operand} (h : d.Evaluates scope visits d')
    (hi : Instruction.Inert scope ⟨opcode, operands⟩) :
    d.Evaluates scope visits (d'.emitWith opcode operands) :=
  h.step (evaluates_emitWith d' (.inl hi) (by simp))

theorem emitPlain {opcode : Opcode} {operands : List Operand} (h : d.Evaluates scope visits d')
    (hp : opcode.plain = true) : d.Evaluates scope visits (d'.emitWith opcode operands) :=
  h.emitWith (Instruction.inert_of_plain hp)

theorem emit {opcode : Opcode} (h : d.Evaluates scope visits d') (hp : opcode.plain = true) :
    d.Evaluates scope visits (d'.emit opcode) :=
  h.emitPlain hp

theorem jump (h : d.Evaluates scope visits d') (opcode : Opcode) (hp : opcode.plain = true)
    (label : Nat) : d.Evaluates scope visits (d'.jump opcode label) :=
  h.emitPlain hp

theorem report (h : d.Evaluates scope visits d') (defect : Defect) (span : Span) :
    d.Evaluates scope visits (d'.report defect span) :=
  h.step (evaluates_report d' defect span (by simp))

theorem addLabel (h : d.Evaluates scope visits d') : d.Evaluates scope visits d'.addLabel :=
  h.step (evaluates_of_code_eq rfl rfl rfl List.prefix_rfl (by simp))

theorem bind (h : d.Evaluates scope visits d') (label : Nat) :
    d.Evaluates scope visits (d'.bind label) :=
  h.step (evaluates_of_code_eq rfl rfl rfl List.prefix_rfl (by simp))

end Evaluates

end Draft

/-- A literal behind a sign. -/
theorem Draft.evaluates_negInt {scope : Scope} (d : Draft) (span s : Span) (v : Int64) :
    d.Evaluates scope ((Expr.unary span .neg (.int s v)).visits scope)
      ((Expr.unary span .neg (.int s v)).lower scope d) :=
  d.evaluates_pushInt span fun _ hi =>
    Instruction.isWord_of_constant? (Instruction.toInt_neg_of_constant? hi)

theorem CallPlan.evaluates_start {scope : Scope} (plan : CallPlan) (d : Draft) :
    d.Evaluates scope [] (plan.start d) := by
  unfold start
  split
  · exact (Draft.Evaluates.refl d).emitPlain rfl
  · exact .refl d

/-! ## Expressions -/

section

variable (scope : Scope)

mutual

theorem Expr.evaluates_lower (e : Expr) (d : Draft) :
    d.Evaluates scope (e.visits scope) (e.lower scope d) := by
  have h₀ : d.Evaluates scope [] d := .refl d
  match e with
  | .int span v => exact d.evaluates_pushInt span fun i hi => Instruction.isWord_of_constant? hi
  | .float .. | .text .. | .localized .. | .undefined _ | .level _ | .self _ | .game _ | .anim _
  | .emptyArray _ | .bool _ true | .bool _ false | .functionRef _ (some _) _ =>
      simp only [Expr.lower]
      exact h₀.emitPlain rfl
  | .vector _ x y z =>
      have hxy := (x.evaluates_lower d).trans (y.evaluates_lower _)
      exact (hxy.trans (z.evaluates_lower _)).emitPlain rfl
  | .ident span name => exact d.evaluates_ident span name
  | .functionRef span none name =>
      simp only [Expr.lower]
      split
      · rename_i hn
        exact h₀.emitWith (Instruction.inert_onScript rfl hn [])
      · exact h₀.report _ _
  | .field _ base name =>
      simp only [Expr.lower]
      split
      · exact (base.evaluates_lower d).emitPlain rfl
      · exact (base.evaluates_lower d).emitPlain rfl
  | .index _ base i =>
      exact ((i.evaluates_lower d).trans (base.evaluates_lower _)).emitPlain rfl
  | .call span object thread callee args =>
      simp only [Expr.lower, Expr.visits]
      split
      · exact d.evaluates_refusal _ _ _
      · cases hplan : CallPlan.make scope object.isSome thread args.length.toUInt8 callee with
        | error defect => exact d.evaluates_refusal _ _ _
        | ok plan =>
            have ha := (plan.evaluates_start d).trans (evaluates_lowerArgs args _)
            have ho := ha.trans (evaluates_lowerObject object _)
            exact (ho.trans (callee.evaluates_lowerTarget _)).emitWith
              (CallPlan.inert_of_make hplan)
  | .unary span .neg operand =>
      rcases operand.lower_neg_cases scope span d with ⟨s, v, rfl⟩ | ⟨s, v, rfl⟩ | he
      · exact d.evaluates_negInt span s v
      · exact h₀.emitPlain rfl
      · rcases operand.visits_neg scope span with ⟨s, v, rfl⟩ | hv
        · exact d.evaluates_negInt span s v
        · rw [he, hv]
          exact ((h₀.emit rfl).trans (operand.evaluates_lower _)).emitPlain rfl
  | .unary _ .not operand | .unary _ .bitNot operand =>
      exact (operand.evaluates_lower d).emitPlain rfl
  | .binary _ left op right =>
      have hl := (left.evaluates_lower d).trans (right.evaluates_lower _)
      have hj := h₀.addLabel.trans (left.evaluates_lower d.addLabel)
      cases op with
      | and =>
          exact ((hj.jump .jumpOnFalseExpr rfl _).trans (right.evaluates_lower _)).bind _
      | or => exact ((hj.jump .jumpOnTrueExpr rfl _).trans (right.evaluates_lower _)).bind _
      | _ => exact hl.emitPlain rfl
  | .ternary _ condition thenExpr elseExpr =>
      have hc := h₀.addLabel.addLabel.trans (condition.evaluates_lower _)
      have ht := (hc.jump .jumpOnFalse rfl d.nextLabel).trans (thenExpr.evaluates_lower _)
      exact (((ht.jump .jump rfl _).bind _).trans (elseExpr.evaluates_lower _)).bind _

theorem Callee.evaluates_lowerTarget (callee : Callee) (d : Draft) :
    d.Evaluates scope (callee.visits scope) (callee.lowerTarget scope d) := by
  match callee with
  | .pointer target => exact target.evaluates_lower d
  | .named _ => exact .refl d
  | .far _ _ => exact .refl d

theorem evaluates_lowerObject (object : Option Expr) (d : Draft) :
    d.Evaluates scope (visitsOfObject scope object) (lowerObject scope object d) := by
  match object with
  | none => exact .refl d
  | some e => exact e.evaluates_lower d

theorem evaluates_lowerArgs (args : List Expr) (d : Draft) :
    d.Evaluates scope (visitsOfArgs scope args) (lowerArgs scope args d) := by
  match args with
  | [] => exact .refl d
  | arg :: rest => exact (evaluates_lowerArgs rest d).trans (arg.evaluates_lower _)

end

end

end Gsc
