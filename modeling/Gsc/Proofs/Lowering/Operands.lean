import Gsc.Proofs.Lowering.Emission
import Gsc.Proofs.Script.Mentions

/-! # The operands of lowered code

`Builds` says what lowering adds to a draft, for every script and whether anything is found wrong
with it or not: instructions with the operands that their opcodes take, whose strings the script
mentions and whose labels were added on the way or belong to the loop around; and labels that are
bound, apart from those that are still pending.
-/

namespace Gsc

/-! ## Instructions -/

/-- A string that may be named, or a label that may be jumped to. -/
def Operand.Within (texts : String → Prop) (targets : Nat → Prop) : Operand → Prop
  | .text s => texts s
  | .label l => targets l
  | _ => True

/-- The operands are of the kinds that the opcode takes, and within what is allowed. -/
structure Instruction.Sound (texts : String → Prop) (targets : Nat → Prop) (i : Instruction) :
    Prop where
  kinds : i.opcode.operands = i.operands.map Operand.kind
  within : ∀ o ∈ i.operands, o.Within texts targets

theorem Instruction.Sound.mono {texts : String → Prop} {targets targets' : Nat → Prop}
    {i : Instruction} (h : i.Sound texts targets) (hl : ∀ l, targets l → targets' l) :
    i.Sound texts targets' := by
  refine ⟨h.kinds, fun o ho => ?_⟩
  have hw := h.within o ho
  cases o with
  | label l => exact hl l hw
  | _ => exact hw

theorem Instruction.sound_of_constant? {texts : String → Prop} {targets : Nat → Prop}
    {i : Instruction} {v : Int} (h : i.constant? = some v) : i.Sound texts targets := by
  cases pushes_of_constant? h <;> exact ⟨rfl, by simp [Operand.Within]⟩

namespace Draft

/-- Where `break` and `continue` jump to. -/
def Targets (d : Draft) (l : Nat) : Prop :=
  ∃ labels ∈ d.loops.head?, l = labels.breakTo ∨ l = labels.continueTo

theorem targets_enterLoop {d : Draft} {labels : LoopLabels} {l : Nat} :
    (d.enterLoop labels).Targets l ↔ l = labels.breakTo ∨ l = labels.continueTo := by
  simp [Targets, enterLoop]

@[simp] theorem nextLabel_addLabel (d : Draft) : d.addLabel.nextLabel = d.nextLabel + 1 := by
  simp [nextLabel, addLabel]

/-! ## What is added to a draft -/

/-- A label that was added between two drafts. -/
def Made (d d' : Draft) (l : Nat) : Prop := d.labels.size ≤ l ∧ l < d'.labels.size

/-- The second draft comes from the first by adding sound instructions, which jump to `outer` labels
or added ones, and labels, of which those not `pending` are bound to a place behind the first. -/
structure Builds (texts : String → Prop) (outer : Nat → Prop) (pending : List Nat) (d d' : Draft) :
    Prop where
  grows : d.Extends d'
  code : ∀ i ∈ d'.code.toList.drop d.code.size, i.Sound texts fun l => outer l ∨ d.Made d' l
  nodup : pending.Nodup
  fresh : ∀ l ∈ pending, d.labels.size ≤ l ∧ d'.Fresh l
  bound : ∀ l, d.Made d' l → l ∉ pending →
    ∃ v, d'.labels.toList[l]? = some (some v) ∧ d.code.size ≤ v ∧ v ≤ d'.code.size

namespace Builds

variable {texts : String → Prop} {outer outer' : Nat → Prop} {pending : List Nat}
  {d d' d'' : Draft}

theorem refl (d : Draft) : d.Builds texts outer [] d := by
  refine ⟨.refl d, ?_, List.nodup_nil, by simp, ?_⟩
  · intro i hi
    rw [← Array.length_toList, List.drop_length] at hi
    cases hi
  · intro l hl
    exact absurd hl.2 (Nat.not_lt.2 hl.1)

/-- What a part adds, whose outer labels are those of the whole or were added before it. -/
theorem trans (h : d.Builds texts outer pending d') (h' : d'.Builds texts outer' [] d'')
    (ho : ∀ l, outer' l → outer l ∨ d.Made d' l) : d.Builds texts outer pending d'' := by
  have hlabels := h'.grows.labels_size_le
  have hmade : ∀ l, d.Made d' l → d.Made d'' l :=
    fun l hl => ⟨hl.1, Nat.lt_of_lt_of_le hl.2 hlabels⟩
  refine ⟨h.grows.trans h'.grows, ?_, h.nodup, ?_, ?_⟩
  · intro i hi
    obtain ⟨back, hback⟩ := h'.grows.code
    have hfirst := h.grows.size_le
    rw [← hback, List.drop_append_of_le_length (by simpa using hfirst)] at hi
    rcases List.mem_append.1 hi with hi | hi
    · exact (h.code i hi).mono fun l hl => hl.imp_right (hmade l)
    · have hsecond : i ∈ d''.code.toList.drop d'.code.size := by
        rw [← hback, ← Array.length_toList, List.drop_left]
        exact hi
      refine (h'.code i hsecond).mono fun l hl => ?_
      rcases hl with hl | hl
      · exact (ho l hl).imp_right (hmade l)
      · exact .inr ⟨Nat.le_trans h.grows.labels_size_le hl.1, hl.2⟩
  · intro l hl
    exact ⟨(h.fresh l hl).1, (h.fresh l hl).2.extends h'.grows⟩
  · intro l hl hp
    by_cases hlt : l < d'.labels.size
    · obtain ⟨v, hv, hlow, hhigh⟩ := h.bound l ⟨hl.1, hlt⟩ hp
      exact ⟨v, getElem?_of_prefix h'.grows.labels hv, hlow,
        Nat.le_trans hhigh h'.grows.size_le⟩
    · obtain ⟨v, hv, hlow, hhigh⟩ := h'.bound l ⟨Nat.not_lt.1 hlt, hl.2⟩ (by simp)
      exact ⟨v, hv, Nat.le_trans h.grows.size_le hlow, hhigh⟩

/-- What a part adds that jumps nowhere but to its own labels. -/
theorem andThen (h : d.Builds texts outer pending d')
    (h' : d'.Builds texts (fun _ => False) [] d'') : d.Builds texts outer pending d'' :=
  h.trans h' fun _ hl => hl.elim

/-- A step that adds no label. -/
theorem congr_labels (h : d.Builds texts outer pending d') (hg : d'.Extends d'')
    (hlabels : d''.labels = d'.labels)
    (hcode : ∀ i ∈ d''.code.toList.drop d'.code.size,
      i.Sound texts fun l => outer l ∨ d.Made d' l) :
    d.Builds texts outer pending d'' := by
  have hmade : ∀ l, ¬ d'.Made d'' l := by
    intro l hl
    have := hl.1
    have := hl.2
    rw [hlabels] at this
    omega
  have hstep : d'.Builds texts (fun l => outer l ∨ d.Made d' l) [] d'' := by
    refine ⟨hg, fun i hi => ?_, List.nodup_nil, by simp, fun l hl => (hmade l hl).elim⟩
    exact (hcode i hi).mono fun l hl => .inl hl
  exact h.trans hstep fun _ hl => hl

theorem emitWith {opcode : Opcode} {operands : List Operand}
    (h : d.Builds texts outer pending d')
    (hs : Instruction.Sound texts (fun l => outer l ∨ d.Made d' l) ⟨opcode, operands⟩) :
    d.Builds texts outer pending (d'.emitWith opcode operands) := by
  refine h.congr_labels ((Extends.refl d').emitWith opcode operands) rfl fun i hi => ?_
  have hnew : i = ⟨opcode, operands⟩ := by simpa [Draft.emitWith, List.drop_append] using hi
  rw [hnew]
  exact hs

theorem emit (h : d.Builds texts outer pending d') (opcode : Opcode) (hk : opcode.operands = []) :
    d.Builds texts outer pending (d'.emit opcode) :=
  h.emitWith ⟨hk, by simp⟩

theorem emitSlot (h : d.Builds texts outer pending d') (opcode : Opcode)
    (hk : opcode.operands = [.byte]) (slot : Nat) :
    d.Builds texts outer pending (d'.emitSlot opcode slot) :=
  h.emitWith ⟨hk, by simp [Operand.Within]⟩

theorem emitText {opcode : Opcode} {s : String} (h : d.Builds texts outer pending d')
    (hk : opcode.operands = [.text]) (hs : texts s) :
    d.Builds texts outer pending (d'.emitWith opcode [.text s]) :=
  h.emitWith ⟨hk, by simpa [Operand.Within] using hs⟩

theorem callBuiltin {name : String} (h : d.Builds texts outer pending d') (hn : texts name)
    (count : UInt8) : d.Builds texts outer pending (d'.callBuiltin name count) :=
  h.emitWith ⟨rfl, by simpa [Operand.Within] using hn⟩

theorem jump {l : Nat} (h : d.Builds texts outer pending d') (opcode : Opcode)
    (hk : opcode.operands = [.jump]) (hl : outer l ∨ d.Made d' l) :
    d.Builds texts outer pending (d'.jump opcode l) :=
  h.emitWith ⟨hk, by simpa [Operand.Within] using hl⟩

theorem made_of_mem {l : Nat} (h : d.Builds texts outer pending d') (hl : l ∈ pending) :
    d.Made d' l :=
  ⟨(h.fresh l hl).1, (h.fresh l hl).2.lt_size⟩

/-- A jump to a label that waits to be bound. -/
theorem jumpAhead {l : Nat} (h : d.Builds texts outer pending d') (opcode : Opcode)
    (hk : opcode.operands = [.jump]) (hl : l ∈ pending) :
    d.Builds texts outer pending (d'.jump opcode l) :=
  h.jump opcode hk (.inr (h.made_of_mem hl))

theorem report (h : d.Builds texts outer pending d') (defect : Defect) (span : Span) :
    d.Builds texts outer pending (d'.report defect span) :=
  h.congr_labels ((Extends.refl d').report defect span) rfl (by
    simp [Draft.report, ← Array.length_toList])

theorem defineSlot (h : d.Builds texts outer pending d') (name : String) (span : Span) :
    d.Builds texts outer pending (d'.defineSlot name span).2 := by
  have hg := (Extends.refl d').defineSlot name span
  unfold Draft.defineSlot at hg ⊢
  cases hs : d'.slots.define? name with
  | some found =>
      rw [hs] at hg
      exact h.congr_labels hg rfl (by simp [← Array.length_toList])
  | none => exact h.report _ _

theorem pushInt (h : d.Builds texts outer pending d') (value : Int64) (span : Span) :
    d.Builds texts outer pending (d'.pushInt value span) := by
  rcases pushInt_cases d' value span with ⟨i, hi, he⟩ | ⟨-, he⟩
  · rw [he]
    exact h.emitWith (Instruction.sound_of_constant? hi)
  · rw [he]
    exact h.report _ _

/-- A new label is pending. -/
theorem addLabel {l : Nat} (h : d.Builds texts outer pending d') (hl : d'.nextLabel = l) :
    d.Builds texts outer (pending ++ [l]) d'.addLabel := by
  subst hl
  have hg := Extends.addLabel (.refl d')
  have hsize : d'.addLabel.labels.size = d'.labels.size + 1 := by simp [Draft.addLabel]
  refine ⟨h.grows.addLabel, ?_, ?_, ?_, ?_⟩
  · intro i hi
    refine (h.code i hi).mono fun l hl => hl.imp_right fun hm => ⟨hm.1, ?_⟩
    rw [hsize]
    exact Nat.lt_succ_of_lt hm.2
  · refine List.nodup_append.2 ⟨h.nodup, by simp, fun l hl m hm heq => ?_⟩
    rw [List.mem_singleton.1 hm] at heq
    exact Nat.ne_of_lt (h.fresh l hl).2.lt_size heq
  · intro l hl
    rcases List.mem_append.1 hl with hl | hl
    · exact ⟨(h.fresh l hl).1, (h.fresh l hl).2.extends hg⟩
    · rw [List.mem_singleton.1 hl]
      exact ⟨h.grows.labels_size_le, d'.fresh_addLabel⟩
  · intro l hl hp
    have hne : l ≠ d'.nextLabel := fun heq => hp (by simp [heq])
    have hlt : l < d'.labels.size := by
      have := hl.2
      simp only [nextLabel] at hne
      omega
    obtain ⟨v, hv, hbound⟩ := h.bound l ⟨hl.1, hlt⟩ fun hmem => hp (by simp [hmem])
    exact ⟨v, getElem?_of_prefix hg.labels hv, hbound⟩

/-- The first pending label is bound to the end of the draft. -/
theorem bind {l : Nat} (h : d.Builds texts outer (l :: pending) d') :
    d.Builds texts outer pending (d'.bind l) := by
  obtain ⟨hlow, hfresh⟩ := h.fresh l List.mem_cons_self
  obtain ⟨hnot, hnodup⟩ := List.nodup_cons.1 h.nodup
  have hsize : (d'.bind l).labels.size = d'.labels.size := by simp [Draft.bind]
  have hmade : ∀ m, d.Made (d'.bind l) m ↔ d.Made d' m := by simp [Made, hsize]
  refine ⟨h.grows.bind hlow, ?_, hnodup, ?_, ?_⟩
  · intro i hi
    exact (h.code i hi).mono fun m hm => hm.imp_right (hmade m).2
  · intro m hm
    have hne : l ≠ m := fun heq => hnot (heq ▸ hm)
    obtain ⟨hm, hfresh⟩ := h.fresh m (List.mem_cons_of_mem l hm)
    exact ⟨hm, hfresh.bind hne⟩
  · intro m hm hp
    rw [Draft.bind, Array.toList_setIfInBounds]
    by_cases heq : m = l
    · subst heq
      rw [List.getElem?_set_self (by simpa using hfresh.lt_size)]
      exact ⟨_, rfl, h.grows.size_le, Nat.le_refl _⟩
    · rw [List.getElem?_set_ne (Ne.symm heq)]
      exact h.bound m ((hmade m).1 hm) (by simp [heq, hp])

end Builds

end Draft

/-! ## Expressions -/

theorem BinaryOp.operands_of_opcode? {op : BinaryOp} {opcode : Opcode}
    (h : op.opcode? = some opcode) : opcode.operands = [] := by
  cases op <;> cases h <;> rfl

namespace CallPlan

/-- The instruction of a call has the operands of its opcode, and names what the callee names. -/
theorem sound_of_make {scope : Scope} {onObject thread : Bool} {count : UInt8} {callee : Callee}
    {plan : CallPlan} {texts : String → Prop} {targets : Nat → Prop}
    (h : make scope onObject thread count callee = .ok plan)
    (hm : ∀ m ∈ callee.mentions, texts m.value) :
    Instruction.Sound texts targets ⟨plan.opcode, plan.operands⟩ := by
  unfold make at h
  split at h
  · have hname := hm _ List.mem_cons_self
    split at h
    · cases h
      cases thread <;> cases onObject <;>
        exact ⟨rfl, by simpa [script, Operand.Within] using hname⟩
    · split at h
      · cases h
      · split at h
        · cases h
        · cases h
          cases onObject <;> exact ⟨rfl, by simpa [Operand.Within] using hname⟩
  · cases h
    cases thread <;> cases onObject <;>
      exact ⟨rfl, by simpa [script, Operand.Within, Callee.mentions] using hm⟩
  · cases h
    cases thread <;> cases onObject <;> exact ⟨rfl, by simp [script, Operand.Within]⟩

theorem builds_start {texts : String → Prop} (plan : CallPlan) (d : Draft) :
    d.Builds texts (fun _ => False) [] (plan.start d) := by
  unfold start
  split
  · exact (Draft.Builds.refl d).emit _ rfl
  · exact .refl d

end CallPlan

section Expressions

variable {texts : String → Prop}

mutual

theorem Expr.builds_lower (scope : Scope) (e : Expr) (d : Draft)
    (h : ∀ m ∈ e.mentions, texts m.value) :
    d.Builds texts (fun _ => False) [] (e.lower scope d) := by
  have h₀ : d.Builds texts (fun _ => False) [] d := .refl d
  match e with
  | .int span v => exact h₀.pushInt v span
  | .float .. | .bool _ true =>
      simp only [Expr.lower]
      exact h₀.emitWith ⟨rfl, by simp [Operand.Within]⟩
  | .text _ v | .localized _ v =>
      simp only [Expr.lower]
      exact h₀.emitText rfl (h _ List.mem_cons_self)
  | .undefined _ | .level _ | .self _ | .game _ | .anim _ | .emptyArray _ | .bool _ false =>
      simp only [Expr.lower]
      exact h₀.emit _ rfl
  | .vector _ x y z =>
      simp only [Expr.mentions, List.mem_append, or_imp, forall_and] at h
      obtain ⟨⟨hx, hy⟩, hz⟩ := h
      have hxy := (h₀.andThen (x.builds_lower scope d hx)).andThen (y.builds_lower scope _ hy)
      exact (hxy.andThen (z.builds_lower scope _ hz)).emit _ rfl
  | .ident span name =>
      simp only [Expr.lower]
      split
      · exact h₀.emitSlot _ rfl _
      · exact h₀.report _ _
  | .functionRef span none name =>
      simp only [Expr.lower]
      split
      · exact h₀.emitText rfl (h _ List.mem_cons_self)
      · exact h₀.report _ _
  | .functionRef _ (some path) name =>
      simp only [Expr.lower]
      exact h₀.emitWith ⟨rfl, by simpa [Operand.Within, Expr.mentions] using h⟩
  | .field _ base name =>
      simp only [Expr.mentions, List.mem_append, or_imp, forall_and] at h
      have hb := h₀.andThen (base.builds_lower scope d h.1)
      simp only [Expr.lower]
      split
      · exact hb.emit _ rfl
      · exact hb.emitText rfl (h.2 _ List.mem_cons_self)
  | .index _ base i =>
      simp only [Expr.mentions, List.mem_append, or_imp, forall_and] at h
      have hi := h₀.andThen (i.builds_lower scope d h.2)
      exact (hi.andThen (base.builds_lower scope _ h.1)).emit _ rfl
  | .call span object thread callee args =>
      simp only [Expr.mentions, List.mem_append, or_imp, forall_and] at h
      obtain ⟨⟨hobject, hcallee⟩, hargs⟩ := h
      simp only [Expr.lower]
      split
      · exact h₀.report _ _
      · split
        · exact h₀.report _ _
        · rename_i plan hplan
          have ha :=
            (h₀.andThen (plan.builds_start d)).andThen (builds_lowerArgs scope args _ hargs)
          have ho := ha.andThen (builds_lowerObject scope object _ hobject)
          exact (ho.andThen (callee.builds_lowerTarget scope _ hcallee)).emitWith
            (CallPlan.sound_of_make hplan hcallee)
  | .unary span .neg operand =>
      rcases operand.lower_neg_cases scope span d with ⟨s, v, rfl⟩ | ⟨s, v, rfl⟩ | he
      · exact h₀.pushInt (-v) _
      · exact h₀.emitWith ⟨rfl, by simp [Operand.Within]⟩
      · rw [he]
        exact ((h₀.emit _ rfl).andThen (operand.builds_lower scope _ h)).emit _ rfl
  | .unary _ .not operand => exact (h₀.andThen (operand.builds_lower scope d h)).emit _ rfl
  | .unary _ .bitNot operand => exact (h₀.andThen (operand.builds_lower scope d h)).emit _ rfl
  | .binary _ left op right =>
      simp only [Expr.mentions, List.mem_append, or_imp, forall_and] at h
      have hl :=
        (h₀.andThen (left.builds_lower scope d h.1)).andThen (right.builds_lower scope _ h.2)
      have hj := (h₀.addLabel rfl).andThen (left.builds_lower scope d.addLabel h.1)
      cases op with
      | and =>
          have hj := hj.jumpAhead .jumpOnFalseExpr rfl List.mem_cons_self
          exact (hj.andThen (right.builds_lower scope _ h.2)).bind
      | or =>
          have hj := hj.jumpAhead .jumpOnTrueExpr rfl List.mem_cons_self
          exact (hj.andThen (right.builds_lower scope _ h.2)).bind
      | _ => exact hl.emit _ rfl
  | .ternary _ condition thenExpr elseExpr =>
      simp only [Expr.mentions, List.mem_append, or_imp, forall_and] at h
      obtain ⟨⟨hcondition, hthen⟩, helse⟩ := h
      have hc :=
        ((h₀.addLabel rfl).addLabel rfl).andThen (condition.builds_lower scope _ hcondition)
      have ht := (hc.jumpAhead .jumpOnFalse rfl List.mem_cons_self).andThen
        (thenExpr.builds_lower scope _ hthen)
      have hj := ht.jumpAhead .jump rfl (List.mem_cons_of_mem _ List.mem_cons_self)
      exact (hj.bind.andThen (elseExpr.builds_lower scope _ helse)).bind

theorem Callee.builds_lowerTarget (scope : Scope) (callee : Callee) (d : Draft)
    (h : ∀ m ∈ callee.mentions, texts m.value) :
    d.Builds texts (fun _ => False) [] (callee.lowerTarget scope d) := by
  match callee with
  | .pointer target => exact target.builds_lower scope d h
  | .named _ => exact .refl d
  | .far _ _ => exact .refl d

theorem builds_lowerObject (scope : Scope) (object : Option Expr) (d : Draft)
    (h : ∀ m ∈ mentionsOfObject object, texts m.value) :
    d.Builds texts (fun _ => False) [] (lowerObject scope object d) := by
  match object with
  | none => exact .refl d
  | some e => exact e.builds_lower scope d h

theorem builds_lowerArgs (scope : Scope) (args : List Expr) (d : Draft)
    (h : ∀ m ∈ mentionsOfArgs args, texts m.value) :
    d.Builds texts (fun _ => False) [] (lowerArgs scope args d) := by
  match args with
  | [] => exact .refl d
  | arg :: rest =>
      simp only [mentionsOfArgs, List.mem_append, or_imp, forall_and] at h
      exact (builds_lowerArgs scope rest d h.2).andThen (arg.builds_lower scope _ h.1)

end

theorem Draft.Builds.lower {outer : Nat → Prop} {pending : List Nat} {d d' : Draft}
    (h : d.Builds texts outer pending d') (scope : Scope) (e : Expr)
    (he : ∀ m ∈ e.mentions, texts m.value) : d.Builds texts outer pending (e.lower scope d') :=
  h.andThen (e.builds_lower scope d' he)

theorem Draft.Builds.lowerRef {outer : Nat → Prop} {pending : List Nat} {d d' : Draft}
    (h : d.Builds texts outer pending d') (scope : Scope) (defining : Bool) (e : Expr)
    (he : ∀ m ∈ e.mentions, texts m.value) :
    d.Builds texts outer pending (e.lowerRef scope defining d') := by
  match e with
  | .ident span name =>
      simp only [Expr.lowerRef]
      split
      · exact (h.defineSlot name span).emitSlot _ rfl _
      · split
        · exact h.emitSlot _ rfl _
        · exact h.report _ _
  | .field span base name =>
      simp only [Expr.mentions, List.mem_append, or_imp, forall_and] at he
      simp only [Expr.lowerRef]
      split
      · exact h.report _ _
      · exact (h.lower scope base he.1).emitText rfl (he.2 _ List.mem_cons_self)
  | .index _ base i =>
      simp only [Expr.mentions, List.mem_append, or_imp, forall_and] at he
      exact ((h.lower scope i he.2).lowerRef scope defining base he.1).emit _ rfl
  | .int .. | .float .. | .text .. | .localized .. | .undefined _ | .bool .. | .level _ | .self _
  | .game _ | .anim _ | .emptyArray _ | .vector .. | .functionRef .. | .call .. | .unary ..
  | .binary .. | .ternary .. => exact h.report _ _

end Expressions

/-! ## Statements -/

/-- The functions with which a loop over an array finds its keys. -/
def ArraySlots.builtins : List String := ["getfirstarraykey", "isdefined", "getnextarraykey"]

section Statements

variable {texts : String → Prop}

namespace Draft.Builds

variable {outer : Nat → Prop} {pending : List Nat} {d d' : Draft}

theorem guard {exit : Nat} (h : d.Builds texts outer pending d') (scope : Scope)
    (hexit : exit ∈ pending) (condition : Option Expr)
    (he : ∀ m ∈ mentionsOfObject condition, texts m.value) :
    d.Builds texts outer pending (d'.guard scope exit condition) := by
  cases condition with
  | none => exact h
  | some condition =>
      simp only [Draft.guard]
      split
      · exact h
      · exact (h.lower scope condition he).jumpAhead .jumpOnFalse rfl hexit

theorem store (h : d.Builds texts outer pending d') (slot : Nat) :
    d.Builds texts outer pending (d'.store slot) :=
  (h.emitSlot _ rfl slot).emit _ rfl

theorem receive (h : d.Builds texts outer pending d') (targets : List (Located String)) :
    d.Builds texts outer pending (d'.receive targets) := by
  induction targets generalizing d' with
  | nil => exact h
  | cons v rest ih => exact ih ((h.defineSlot v.value v.span).emitSlot _ rfl _)

theorem assignOp (h : d.Builds texts outer pending d') (scope : Scope) (span : Span)
    (target value : Expr)
    (ht : ∀ m ∈ target.mentions, texts m.value) (hv : ∀ m ∈ value.mentions, texts m.value)
    (op : AssignOp) : d.Builds texts outer pending (op.lower scope span target value d') := by
  cases op with
  | assign => exact ((h.lower scope value hv).lowerRef scope true target ht).emit _ rfl
  | compound op =>
      have hboth := (h.lower scope target ht).lower scope value hv
      simp only [AssignOp.lower]
      refine (Builds.lowerRef ?_ scope false target ht).emit _ rfl
      split
      · rename_i opcode hop
        exact hboth.emit _ (BinaryOp.operands_of_opcode? hop)
      · exact hboth.report _ _

theorem defineArraySlots (h : d.Builds texts outer pending d') (span : Span) :
    d.Builds texts outer pending (ArraySlots.define d' span).2 := by
  have hn : d.Builds texts outer pending { d' with arrayLoops := d'.arrayLoops + 1 } :=
    ⟨⟨h.grows.code, h.grows.labels, h.grows.slots, h.grows.findings, h.grows.valid,
      h.grows.loops⟩, h.code, h.nodup, h.fresh, h.bound⟩
  exact (hn.defineSlot _ _).defineSlot _ _

section ArrayLoops

variable (hb : ∀ n ∈ ArraySlots.builtins, texts n)

include hb

theorem first (h : d.Builds texts outer pending d') (slots : ArraySlots) :
    d.Builds texts outer pending (slots.first d') := by
  have hcall := ((h.store slots.array).emitSlot .evalLocal rfl slots.array).callBuiltin
    (hb "getfirstarraykey" (by decide)) 1
  exact hcall.store slots.key

theorem element {exit : Nat} (h : d.Builds texts outer pending d') (hexit : exit ∈ pending)
    (slots : ArraySlots) : d.Builds texts outer pending (slots.element exit d') := by
  have hcall := (h.emitSlot .evalLocal rfl slots.key).callBuiltin
    (hb "isdefined" (by decide)) 1
  have hjump := hcall.jumpAhead .jumpOnFalse rfl hexit
  have hkey := hjump.emitSlot .evalLocal rfl slots.key
  exact (hkey.emitSlot .evalLocal rfl slots.array).emit _ rfl

theorem advance (h : d.Builds texts outer pending d') (slots : ArraySlots) :
    d.Builds texts outer pending (slots.advance d') := by
  have hkey := h.emitSlot .evalLocal rfl slots.key
  have hcall := (hkey.emitSlot .evalLocal rfl slots.array).callBuiltin
    (hb "getnextarraykey" (by decide)) 2
  exact hcall.store slots.key

end ArrayLoops

/-- A statement in the loop around. -/
theorem stmt {d'' : Draft} (h : d.Builds texts d.Targets pending d')
    (hs : d'.Builds texts d'.Targets [] d'') : d.Builds texts d.Targets pending d'' := by
  refine h.trans hs fun l hl => .inl ?_
  rw [Targets, h.grows.loops] at hl
  exact hl

/-- The body of a loop whose labels have been added. -/
theorem body {breakTo continueTo : Nat} {d'' : Draft} (h : d.Builds texts outer pending d')
    (hbreak : d.Made d' breakTo) (hcontinue : d.Made d' continueTo)
    (hbody : (d'.enterLoop ⟨breakTo, continueTo⟩).Builds texts
      (d'.enterLoop ⟨breakTo, continueTo⟩).Targets [] d'') :
    d.Builds texts outer pending d''.leaveLoop := by
  have hwhole : d'.Builds texts (d'.enterLoop ⟨breakTo, continueTo⟩).Targets [] d''.leaveLoop :=
    ⟨(Extends.refl d').body hbody.grows, hbody.code, hbody.nodup, hbody.fresh, hbody.bound⟩
  refine h.trans hwhole fun l hl => .inr ?_
  rcases targets_enterLoop.1 hl with rfl | rfl
  · exact hbreak
  · exact hcontinue

/-- The labels of a loop with a step: its start, which is bound, the step and the exit. -/
theorem startLoop (h : d.Builds texts outer [] d') :
    d.Builds texts outer [d'.nextLabel + 1, d'.nextLabel + 2]
      (d'.addLabel.addLabel.addLabel.bind d'.nextLabel) :=
  (((h.addLabel rfl).addLabel d'.nextLabel_addLabel).addLabel (by simp)).bind

/-- The end of a loop: back to its start, and the exit behind. -/
theorem closeLoop {start exit : Nat} (h : d.Builds texts outer [exit] d')
    (hstart : d.labels.size ≤ start) (hlt : start < exit) :
    d.Builds texts outer [] ((d'.jump .jump start).bind exit) := by
  have hexit := h.made_of_mem List.mem_cons_self
  exact (h.jump .jump rfl (.inr ⟨hstart, Nat.lt_trans hlt hexit.2⟩)).bind

end Draft.Builds

mutual

theorem Stmt.builds_lower (scope : Scope) (hb : ∀ n ∈ ArraySlots.builtins, texts n)
    (s : Stmt) (d : Draft) (h : ∀ m ∈ s.mentions, texts m.value) :
    d.Builds texts d.Targets [] (s.lower scope d) := by
  have h₀ : d.Builds texts d.Targets [] d := .refl d
  match s with
  | .block _ body => exact builds_lowerBody scope hb body d h
  | .ifElse _ condition thenBranch none =>
      simp only [Stmt.mentions, List.mem_append, or_imp, forall_and] at h
      obtain ⟨⟨hcondition, hthen⟩, -⟩ := h
      have hc := ((h₀.addLabel rfl).lower scope condition hcondition).jumpAhead .jumpOnFalse rfl
        List.mem_cons_self
      exact (hc.stmt (thenBranch.builds_lower scope hb _ hthen)).bind
  | .ifElse _ condition thenBranch (some elseBranch) =>
      simp only [Stmt.mentions, List.mem_append, or_imp, forall_and] at h
      obtain ⟨⟨hcondition, hthen⟩, helse⟩ := h
      have hc := ((h₀.addLabel rfl).lower scope condition hcondition).jumpAhead .jumpOnFalse rfl
        List.mem_cons_self
      have ht :=
        (hc.stmt (thenBranch.builds_lower scope hb _ hthen)).addLabel rfl
      have hj := (ht.jumpAhead .jump rfl (List.mem_cons_of_mem _ List.mem_cons_self)).bind
      exact (hj.stmt (elseBranch.builds_lower scope hb _ helse)).bind
  | .whileLoop _ condition body =>
      simp only [Stmt.mentions, List.mem_append, or_imp, forall_and] at h
      have hstart := ((h₀.addLabel rfl).addLabel d.nextLabel_addLabel).bind
      have hg := hstart.guard scope List.mem_cons_self (some condition) h.1
      have hexit := hg.made_of_mem List.mem_cons_self
      have hfirst : d.Made _ d.nextLabel := ⟨Nat.le_refl _, Nat.lt_of_succ_lt hexit.2⟩
      have hbody := hg.body hexit hfirst (body.builds_lower scope hb _ h.2)
      exact hbody.closeLoop (Nat.le_refl _) (Nat.lt_succ_self _)
  | .forLoop _ init condition step body =>
      simp only [Stmt.mentions, List.mem_append, or_imp, forall_and] at h
      obtain ⟨⟨⟨hinit, hcondition⟩, hstep⟩, hbody⟩ := h
      have hi := builds_lowerClause scope hb init d hinit
      have hg := hi.startLoop.guard scope (List.mem_cons_of_mem _ List.mem_cons_self) condition
        hcondition
      have hnext := hg.made_of_mem List.mem_cons_self
      have hexit := hg.made_of_mem (List.mem_cons_of_mem _ List.mem_cons_self)
      have hb' := hg.body hexit hnext (body.builds_lower scope hb _ hbody)
      have hs := hb'.bind.stmt (builds_lowerClause scope hb step _ hstep)
      exact hs.closeLoop hi.grows.labels_size_le (Nat.lt_add_of_pos_right Nat.two_pos)
  | .foreach _ item collection body =>
      simp only [Stmt.mentions, List.mem_cons, List.mem_append, or_imp, forall_and] at h
      obtain ⟨⟨-, hcollection⟩, hbody⟩ := h
      let slots := (ArraySlots.define d collection.span).1
      have hf := ((h₀.defineArraySlots collection.span).lower scope collection hcollection).first
        hb slots
      have he := hf.startLoop.element hb (List.mem_cons_of_mem _ List.mem_cons_self) slots
      have hs := fun slot => (he.defineSlot item.value item.span).store slot
      have hnext := fun slot => (hs slot).made_of_mem List.mem_cons_self
      have hexit := fun slot =>
        (hs slot).made_of_mem (List.mem_cons_of_mem _ List.mem_cons_self)
      have hb' := fun slot =>
        (hs slot).body (hexit slot) (hnext slot) (body.builds_lower scope hb _ hbody)
      have ha := fun slot => (hb' slot).bind.advance hb slots
      exact (ha _).closeLoop hf.grows.labels_size_le (Nat.lt_add_of_pos_right Nat.two_pos)
  | .ret _ none | .waitFrame _ => exact h₀.emit _ rfl
  | .ret _ (some value) | .wait _ value => exact (h₀.lower scope value h).emit _ rfl
  | .breakLoop _ | .continueLoop _ =>
      simp only [Stmt.lower]
      split
      · rename_i labels hlabels
        exact h₀.jump .jump rfl (.inl ⟨labels, hlabels, by simp⟩)
      · exact h₀.report _ _
  | .waitTill _ object event targets =>
      simp only [Stmt.mentions, List.mem_append, or_imp, forall_and] at h
      have ho := (h₀.lower scope event h.1.2).lower scope object h.1.1
      exact ((ho.emit _ rfl).receive targets).emit _ rfl
  | .notify span object event args =>
      simp only [Stmt.mentions, List.mem_append, or_imp, forall_and] at h
      simp only [Stmt.lower]
      have hr : d.Builds texts d.Targets []
          (if argumentLimit < args.length then d.report .tooManyNotifyArguments span else d) := by
        split
        · exact h₀.report _ _
        · exact h₀
      have ha := (hr.emit .preScriptCall rfl).andThen (builds_lowerArgs scope args _ h.2)
      exact ((ha.lower scope event h.1.2).lower scope object h.1.1).emit _ rfl
  | .endOn _ object event =>
      simp only [Stmt.mentions, List.mem_append, or_imp, forall_and] at h
      exact ((h₀.lower scope event h.2).lower scope object h.1).emit _ rfl
  | .assign span target op value =>
      simp only [Stmt.mentions, List.mem_append, or_imp, forall_and] at h
      exact h₀.assignOp scope span target value h.1 h.2 op
  | .incDec _ target increment =>
      exact (h₀.lowerRef scope false target h).emit _ (by cases increment <;> rfl)
  | .expr _ value =>
      cases value with
      | call span object thread callee args => exact (h₀.lower scope _ h).emit _ rfl
      | _ => exact h₀.report _ _
  | .empty _ => exact h₀

theorem builds_lowerBody (scope : Scope) (hb : ∀ n ∈ ArraySlots.builtins, texts n)
    (body : List Stmt) (d : Draft) (h : ∀ m ∈ mentionsOfBody body, texts m.value) :
    d.Builds texts d.Targets [] (lowerBody scope body d) := by
  match body with
  | [] => exact .refl d
  | s :: rest =>
      simp only [mentionsOfBody, List.mem_append, or_imp, forall_and] at h
      have hs := s.builds_lower scope hb d h.1
      exact hs.stmt (builds_lowerBody scope hb rest _ h.2)

theorem builds_lowerClause (scope : Scope) (hb : ∀ n ∈ ArraySlots.builtins, texts n)
    (clause : Option Stmt) (d : Draft) (h : ∀ m ∈ mentionsOfClause clause, texts m.value) :
    d.Builds texts d.Targets [] (lowerClause scope clause d) := by
  match clause with
  | none => exact .refl d
  | some s => exact s.builds_lower scope hb d h

end

end Statements

/-! ## Functions and scripts -/

/-- Every label leads to an instruction, and the instructions jump to labels of the routine. -/
structure Routine.Sound (texts : String → Prop) (r : Routine) : Prop where
  labels : ∀ l < r.labels.length, ∃ i < r.code.length, r.target? l = some i
  code : ∀ i ∈ r.code, i.Sound texts (· < r.labels.length)

theorem Draft.defineParams_labels (seen : List String) (params : List (Located String))
    (d : Draft) : (defineParams seen params d).labels = d.labels := by
  induction params generalizing seen d with
  | nil => rfl
  | cons p rest ih =>
      unfold defineParams
      split
      · exact ih _ _
      · rw [ih]
        unfold defineSlot
        split <;> rfl

/-- The labels of a function are all bound before its last instruction is emitted. -/
theorem Function.sound_lower {texts : String → Prop} (scope : Scope) (f : Function)
    (hb : ∀ n ∈ ArraySlots.builtins, texts n) (h : ∀ m ∈ f.mentions, texts m.value) :
    (f.lower scope).1.Sound texts := by
  unfold Function.lower
  dsimp only
  have hlabels := Draft.defineParams_labels [] f.params .empty
  have hsize := Draft.size_defineParams [] f.params .empty
  have hloops := (Draft.extends_defineParams [] f.params .empty).loops
  generalize Draft.defineParams [] f.params .empty = start at hlabels hsize hloops ⊢
  have hbody := builds_lowerBody scope hb f.body (start.emit .createLocalVariables)
    fun m hm => h m (by simp [Function.mentions, hm])
  have hend := hbody.emit .finish rfl
  have hfirst : (start.emit .createLocalVariables).code.size = 1 := by
    rw [Draft.size_emit, hsize]
    rfl
  have hnone : (start.emit .createLocalVariables).labels.size = 0 := by
    rw [Draft.emit, Draft.emitWith, hlabels]
    rfl
  generalize hlast : lowerBody scope f.body (start.emit .createLocalVariables) = last
    at hbody hend ⊢
  constructor
  · intro l hl
    have hmade : (start.emit .createLocalVariables).Made last l := by
      refine ⟨by omega, ?_⟩
      simpa [Draft.toRoutine, Draft.emit, Draft.emitWith] using hl
    obtain ⟨v, hv, -, hle⟩ := hbody.bound l hmade (by simp)
    refine ⟨v, ?_, ?_⟩
    · simp only [Draft.toRoutine, List.length_cons, List.length_drop, Array.length_toList,
        Draft.size_emit]
      omega
    · simp only [Routine.target?, Draft.toRoutine, Draft.emit, Draft.emitWith, hv]
      rfl
  · intro i hi
    rcases List.mem_cons.1 hi with rfl | hi
    · exact ⟨rfl, by simp [Operand.Within]⟩
    · rw [← hfirst] at hi
      refine (hend.code i hi).mono fun l hl => ?_
      rcases hl with hl | hl
      · simp [Draft.Targets, Draft.emit, Draft.emitWith, hloops, Draft.empty] at hl
      · simpa [Draft.toRoutine] using hl.2

theorem Script.mem_of_mem_firsts {seen : List String} {functions : List Function} {f : Function}
    (h : f ∈ firsts seen functions) : f ∈ functions := by
  induction functions generalizing seen with
  | nil => cases h
  | cons g rest ih =>
      unfold firsts at h
      split at h
      · exact List.mem_cons_of_mem g (ih h)
      · rcases List.mem_cons.1 h with rfl | h
        · exact List.mem_cons_self
        · exact List.mem_cons_of_mem g (ih h)

/-- Whatever is found wrong with a script, its routines are sound. -/
theorem Script.sound_of_mem_routines {texts : String → Prop} (s : Script) (name : String)
    (hb : ∀ n ∈ ArraySlots.builtins, texts n)
    (h : ∀ f ∈ s.functions, ∀ m ∈ f.mentions, texts m.value) :
    ∀ r ∈ (s.lower name).1.routines, r.Sound texts := by
  intro r hr
  simp only [Script.lower, List.map_map, List.mem_map, Function.comp] at hr
  obtain ⟨f, hf, rfl⟩ := hr
  exact f.sound_lower s.scope hb (h f (mem_of_mem_firsts hf))

end Gsc
