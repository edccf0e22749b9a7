import Gsc.Proofs.Lowering.Evaluation

/-! # What lowering statements does

`Runs` lists the steps that lowering takes through statements, as far as slots are concerned:
evaluating expressions, pushing references to slots that are in use, defining a variable and giving
it a value at once, entering a loop over an array, and reading again the slots of such a loop. What
lowering keeps is shown step by step and holds then for every function.
-/

namespace Gsc

def Opcode.stores : Opcode → Bool
  | .evalLocalRef | .safeSetWaittillVariable => true
  | _ => false

theorem Opcode.onSlot_of_stores {opcode : Opcode} (h : opcode.stores = true) :
    opcode.onSlot = true := by
  cases opcode with
  | evalLocalRef | safeSetWaittillVariable => rfl
  | _ => cases h

namespace Slots

variable {slots : Slots} {name : String} {slot : Nat}

theorem length_names (slots : Slots) : slots.names.toList.length = slots.size :=
  Array.length_toList

theorem lt_size_of_getElem? (h : slots.names.toList[slot]? = some name) : slot < slots.size :=
  slots.length_names ▸ (List.getElem?_eq_some_iff.1 h).1

theorem lt_size_of_find? (h : slots.find? name = some slot) : slot < slots.size :=
  lt_size_of_getElem? (getElem?_of_find? h)

end Slots

namespace Draft

/-- A slot in use, whose variable has been given a value. -/
structure Keeps (d : Draft) (slot : Nat) : Prop where
  lt_size : slot < d.slots.size
  stored : ⟨.evalLocalRef, [.byte slot.toUInt8]⟩ ∈ d.code.toList

/-- Enter a loop over an array: keep the array and its first key. -/
def enter (d : Draft) (scope : Scope) (collection : Expr) : Draft :=
  (ArraySlots.define d collection.span).1.first
    (collection.lower scope (ArraySlots.define d collection.span).2)

/-- The second draft comes from the first by steps that have the given visits and enter the given
loops over arrays. -/
inductive Runs (scope : Scope) : List Visit → List ArrayLoop → Draft → Draft → Prop where
  | refl (d : Draft) : Runs scope [] [] d d
  | evaluate {visits more : List Visit} {loops : List ArrayLoop} {d d' d'' : Draft} :
      Runs scope visits loops d d' → d'.Evaluates scope more d'' →
      Runs scope (visits ++ more) loops d d''
  | refer {visits : List Visit} {loops : List ArrayLoop} {d d' : Draft} {slot : Nat} :
      Runs scope visits loops d d' → slot < d'.slots.size →
      Runs scope visits loops d (d'.emitSlot .evalLocalRef slot)
  | define {visits : List Visit} {loops : List ArrayLoop} {d d' : Draft} (name : String)
      (span : Span) (opcode : Opcode) :
      Runs scope visits loops d d' → opcode.stores = true →
      Runs scope (visits ++ [.use (.define name)]) loops d
        ((d'.defineSlot name span).2.emitSlot opcode (d'.defineSlot name span).1)
  | enter {visits : List Visit} {loops : List ArrayLoop} {d d' : Draft} (item : Located String)
      (collection : Expr) :
      Runs scope visits loops d d' →
      Runs scope (visits ++ collection.visits scope) (loops ++ [⟨item, collection⟩]) d
        (d'.enter scope collection)
  | reload {visits : List Visit} {loops : List ArrayLoop} {d d' : Draft} {slot : Nat} :
      Runs scope visits loops d d' → d'.Keeps slot →
      Runs scope visits loops d (d'.emitSlot .evalLocal slot)

/-! ## Growth -/

/-- The second draft holds the code, slots and findings of the first, in the same place. -/
structure Grows (d d' : Draft) : Prop where
  code : d.code.toList <+: d'.code.toList
  slots : d.slots.names.toList <+: d'.slots.names.toList
  findings : d.findings.toList <+: d'.findings.toList
  valid : d.slots.Valid → d'.slots.Valid

namespace Grows

variable {d d' d'' : Draft}

theorem trans (h : d.Grows d') (h' : d'.Grows d'') : d.Grows d'' :=
  ⟨h.code.trans h'.code, h.slots.trans h'.slots, h.findings.trans h'.findings,
    h'.valid ∘ h.valid⟩

theorem of_extends (h : d.Extends d') : d.Grows d' := ⟨h.code, h.slots, h.findings, h.valid⟩

theorem of_evaluates {scope : Scope} {visits : List Visit} (h : d.Evaluates scope visits d') :
    d.Grows d' := by
  obtain ⟨added, hadded, -⟩ := h.code
  refine ⟨⟨added, hadded.symm⟩, h.slots ▸ List.prefix_rfl, h.findings, fun hv => ?_⟩
  rw [h.slots]
  exact hv

theorem size_le (h : d.Grows d') : d.slots.size ≤ d'.slots.size := by
  have hl := h.slots.length_le
  rwa [Array.length_toList, Array.length_toList] at hl

end Grows

theorem grows_enter (d : Draft) (scope : Scope) (collection : Expr) :
    d.Grows (d.enter scope collection) :=
  .of_extends ((((Extends.refl d).defineArraySlots collection.span).lower scope collection).first _)

theorem Keeps.grows {d d' : Draft} {slot : Nat} (h : d.Keeps slot) (hg : d.Grows d') :
    d'.Keeps slot :=
  ⟨Nat.lt_of_lt_of_le h.lt_size hg.size_le, hg.code.subset h.stored⟩

namespace Runs

variable {scope : Scope} {visits more : List Visit} {loops moreLoops : List ArrayLoop}
  {d d' d'' : Draft}

theorem grows (h : d.Runs scope visits loops d') : d.Grows d' := by
  induction h with
  | refl d => exact .of_extends (.refl d)
  | evaluate _ he ih => exact ih.trans (.of_evaluates he)
  | refer _ _ ih => exact ih.trans (.of_extends (.emitWith (.refl _) _ _))
  | define name span opcode _ _ ih =>
      exact ih.trans (.of_extends (.emitWith (.defineSlot (.refl _) name span) _ _))
  | enter item collection _ ih => exact ih.trans (grows_enter _ scope collection)
  | reload _ _ ih => exact ih.trans (.of_extends (.emitWith (.refl _) _ _))

theorem trans (h : d.Runs scope visits loops d') (h' : d'.Runs scope more moreLoops d'') :
    d.Runs scope (visits ++ more) (loops ++ moreLoops) d'' := by
  induction h' with
  | refl =>
      rw [List.append_nil, List.append_nil]
      exact h
  | evaluate _ he ih =>
      rw [← List.append_assoc]
      exact (ih h).evaluate he
  | refer _ hs ih => exact (ih h).refer hs
  | define name span opcode _ ho ih =>
      rw [← List.append_assoc]
      exact (ih h).define name span opcode ho
  | enter item collection _ ih =>
      rw [← List.append_assoc, ← List.append_assoc]
      exact (ih h).enter item collection
  | reload _ hk ih => exact (ih h).reload hk

/-- Steps that no visit tells of. -/
theorem follow (h : d.Runs scope visits loops d') (h' : d'.Runs scope [] [] d'') :
    d.Runs scope visits loops d'' := by
  have hr := h.trans h'
  rwa [List.append_nil, List.append_nil] at hr

theorem step (h : d.Runs scope visits loops d') (he : d'.Evaluates scope [] d'') :
    d.Runs scope visits loops d'' :=
  h.follow ((Runs.refl d').evaluate he)

theorem emit (h : d.Runs scope visits loops d') (opcode : Opcode) (hp : opcode.plain = true) :
    d.Runs scope visits loops (d'.emit opcode) :=
  h.step ((Evaluates.refl d').emit hp)

theorem jump (h : d.Runs scope visits loops d') (opcode : Opcode) (hp : opcode.plain = true)
    (label : Nat) : d.Runs scope visits loops (d'.jump opcode label) :=
  h.step ((Evaluates.refl d').jump opcode hp label)

theorem report (h : d.Runs scope visits loops d') (defect : Defect) (span : Span) :
    d.Runs scope visits loops (d'.report defect span) :=
  h.step ((Evaluates.refl d').report defect span)

theorem addLabel (h : d.Runs scope visits loops d') : d.Runs scope visits loops d'.addLabel :=
  h.step (Evaluates.refl d').addLabel

theorem bind (h : d.Runs scope visits loops d') (label : Nat) :
    d.Runs scope visits loops (d'.bind label) :=
  h.step ((Evaluates.refl d').bind label)

/-- The stack of loops makes no difference. -/
theorem body {labels : LoopLabels} (h : d.Runs scope visits loops d')
    (hbody : (d'.enterLoop labels).Runs scope more moreLoops d'') :
    d.Runs scope (visits ++ more) (loops ++ moreLoops) d''.leaveLoop := by
  have henter : d'.Evaluates scope [] (d'.enterLoop labels) :=
    evaluates_of_code_eq rfl rfl rfl List.prefix_rfl (by simp)
  have hleave : d''.Evaluates scope [] d''.leaveLoop :=
    evaluates_of_code_eq rfl rfl rfl List.prefix_rfl (by simp)
  exact ((h.step henter).trans hbody).step hleave

theorem callBuiltin (h : d.Runs scope visits loops d') (name : String)
    (hn : isBuiltin false name = true) (count : UInt8) :
    d.Runs scope visits loops (d'.callBuiltin name count) :=
  h.step ((Evaluates.refl d').emitWith (Instruction.inert_callBuiltin hn _))

theorem lower (h : d.Runs scope visits loops d') (e : Expr) :
    d.Runs scope (visits ++ e.visits scope) loops (e.lower scope d') :=
  h.evaluate (e.evaluates_lower scope d')

theorem lowerRef {visits : List Visit} {d' : Draft} (h : d.Runs scope visits loops d')
    (defining : Bool) (e : Expr) :
    d.Runs scope (visits ++ e.targetVisits scope defining) loops
      (e.lowerRef scope defining d') := by
  match e with
  | .ident span name =>
      cases defining with
      | true => exact h.define name span .evalLocalRef rfl
      | false =>
          simp only [Expr.lowerRef, Expr.targetVisits, Bool.false_eq_true, if_false,
            List.append_nil]
          cases hs : d'.slots.find? name with
          | some slot => exact h.refer (Slots.lt_size_of_find? hs)
          | none => exact h.report _ _
  | .field span base name =>
      simp only [Expr.lowerRef, Expr.targetVisits]
      split
      · exact h.evaluate (d'.evaluates_refusal _ _ _)
      · exact (h.lower base).step ((Evaluates.refl _).emitPlain rfl)
  | .index _ base i =>
      have hb := (h.lower i).lowerRef defining base
      rw [List.append_assoc] at hb
      exact hb.emit _ rfl
  | .int .. | .float .. | .text .. | .localized .. | .undefined _ | .bool .. | .level _ | .self _
  | .game _ | .anim _ | .emptyArray _ | .vector .. | .functionRef .. | .call .. | .unary ..
  | .binary .. | .ternary .. => exact h.evaluate (d'.evaluates_refusal _ _ _)

theorem guard (h : d.Runs scope visits loops d') (exit : Nat) (condition : Option Expr) :
    d.Runs scope (visits ++ visitsOfCondition scope condition) loops
      (d'.guard scope exit condition) := by
  have htest : ∀ e : Expr,
      d.Runs scope (visits ++ e.visits scope) loops ((e.lower scope d').jump .jumpOnFalse exit) :=
    fun e => (h.lower e).jump _ rfl exit
  cases condition with
  | none =>
      rw [visitsOfCondition, List.append_nil]
      exact h
  | some e =>
      simp only [Draft.guard]
      cases e with
      | int span value =>
          by_cases hv : value = 0
          · subst hv
            exact htest (.int span 0)
          · simp only [visitsOfCondition, Expr.isAlwaysTrue, hv, ne_eq, not_false_eq_true,
              decide_true, if_true, if_false]
            exact h.evaluate (evaluates_of_code_eq rfl rfl rfl List.prefix_rfl
              (by simp [Visit.Answered]))
      | bool span value =>
          cases value with
          | true => exact h.evaluate (.refl d')
          | false => exact htest (.bool span false)
      | _ => exact htest _

theorem receive (h : d.Runs scope visits loops d') (targets : List (Located String)) :
    d.Runs scope (visits ++ targets.map fun v => .use (.define v.value)) loops
      (d'.receive targets) := by
  induction targets generalizing visits d' with
  | nil =>
      rw [List.map_nil, List.append_nil]
      exact h
  | cons v rest ih =>
      have hv := ih (h.define v.value v.span .safeSetWaittillVariable rfl)
      rw [List.append_assoc] at hv
      exact hv

theorem assignOp (h : d.Runs scope visits loops d') (span : Span) (target value : Expr)
    (op : AssignOp) :
    d.Runs scope (visits ++ (Stmt.assign span target op value).visits scope) loops
      (op.lower scope span target value d') := by
  cases op with
  | assign =>
      have ha := ((h.lower value).lowerRef true target).emit .setVariable rfl
      rw [List.append_assoc] at ha
      exact ha
  | compound op =>
      have hboth := (h.lower target).lower value
      simp only [AssignOp.lower, Stmt.visits]
      rw [← List.append_assoc, ← List.append_assoc]
      refine (Runs.lowerRef ?_ false target).emit _ rfl
      split
      · rename_i opcode hop
        exact hboth.emit _ (BinaryOp.plain_of_opcode? hop)
      · exact hboth.report _ _

/-- Store to a slot that is in use. -/
theorem store (h : d.Runs scope visits loops d') {slot : Nat} (hs : slot < d'.slots.size) :
    d.Runs scope visits loops (d'.store slot) :=
  (h.refer hs).emit _ rfl

end Runs

/-! ## Loops over arrays -/

/-- A name has a slot, gets the next one, or finds none left. -/
theorem defineSlot_cases (d : Draft) (name : String) (span : Span) :
    (∃ slot, d.slots.find? name = some slot ∧ d.defineSlot name span = (slot, d)) ∨
      (d.slots.size < Slots.limit ∧
        d.defineSlot name span = (d.slots.size, { d with slots := ⟨d.slots.names.push name⟩ })) ∨
      (Slots.limit ≤ d.slots.size ∧
        d.defineSlot name span = (0, d.report .tooManyLocals span)) := by
  unfold defineSlot Slots.define?
  cases hf : d.slots.find? name with
  | some slot => exact .inl ⟨slot, rfl, rfl⟩
  | none =>
      by_cases hroom : d.slots.size < Slots.limit
      · exact .inr (.inl ⟨hroom, by simp only [if_pos hroom]⟩)
      · exact .inr (.inr ⟨Nat.le_of_not_lt hroom, by simp only [if_neg hroom]⟩)

/-- A slot that is handed out is in use, even when it stands in for one that was not left. -/
theorem defineSlot_lt_size (d : Draft) (name : String) (span : Span) :
    (d.defineSlot name span).1 < (d.defineSlot name span).2.slots.size := by
  rcases d.defineSlot_cases name span with ⟨slot, hf, he⟩ | ⟨-, he⟩ | ⟨hfull, he⟩
  · rw [he]
    exact Slots.lt_size_of_find? hf
  · rw [he]
    simp [Slots.size]
  · rw [he]
    exact Nat.lt_of_lt_of_le (by decide : 0 < Slots.limit) hfull

end Draft

namespace ArraySlots

open Draft

/-- Both slots of a loop are in use and hold what they are for. -/
structure Kept (slots : ArraySlots) (d : Draft) : Prop where
  array : d.Keeps slots.array
  key : d.Keeps slots.key

theorem Kept.grows {slots : ArraySlots} {d d' : Draft} (h : slots.Kept d) (hg : d.Grows d') :
    slots.Kept d' :=
  ⟨h.array.grows hg, h.key.grows hg⟩

theorem lt_size_define (d : Draft) (span : Span) :
    (define d span).1.array < (define d span).2.slots.size ∧
      (define d span).1.key < (define d span).2.slots.size := by
  let numbered : Draft := { d with arrayLoops := d.arrayLoops + 1 }
  let kept := numbered.defineSlot ("$array" ++ toString d.arrayLoops) span
  have harray : kept.1 < kept.2.slots.size := defineSlot_lt_size _ _ _
  have hkey := (Extends.refl kept.2).defineSlot ("$key" ++ toString d.arrayLoops) span
  exact ⟨Nat.lt_of_lt_of_le harray (Grows.of_extends hkey).size_le, defineSlot_lt_size _ _ _⟩

theorem kept_enter (d : Draft) (scope : Scope) (collection : Expr) :
    (define d collection.span).1.Kept (d.enter scope collection) := by
  have hgrows : (define d collection.span).2.Grows (d.enter scope collection) :=
    .of_extends (((Extends.refl _).lower scope collection).first _)
  obtain ⟨harray, hkey⟩ := lt_size_define d collection.span
  refine ⟨⟨Nat.lt_of_lt_of_le harray hgrows.size_le, ?_⟩,
    ⟨Nat.lt_of_lt_of_le hkey hgrows.size_le, ?_⟩⟩
  · simp [enter, first, store, emitSlot, emit, Draft.callBuiltin, emitWith]
  · simp [enter, first, store, emitSlot, emit, Draft.callBuiltin, emitWith]

variable {scope : Scope} {slots : ArraySlots} {d : Draft}

theorem runs_element (hk : slots.Kept d) (exit : Nat) :
    d.Runs scope [] [] (slots.element exit d) := by
  have hread : d.Runs scope [] [] _ := (Runs.refl d).reload hk.key
  have htest := (hread.callBuiltin "isdefined" (by decide) 1).jump .jumpOnFalse rfl exit
  have hkey := htest.reload (hk.grows htest.grows).key
  exact (hkey.reload (hk.grows hkey.grows).array).emit _ rfl

theorem runs_advance (hk : slots.Kept d) : d.Runs scope [] [] (slots.advance d) := by
  have hkey : d.Runs scope [] [] _ := (Runs.refl d).reload hk.key
  have harray := hkey.reload (hk.grows hkey.grows).array
  have hnext := harray.callBuiltin "getnextarraykey" (by decide) 2
  exact hnext.store (hk.grows hnext.grows).key.lt_size

end ArraySlots

/-! ## Statements -/

section

variable (scope : Scope)

mutual

theorem Stmt.runs_lower (s : Stmt) (d : Draft) :
    d.Runs scope (s.visits scope) s.arrayLoops (s.lower scope d) := by
  have h₀ : d.Runs scope [] [] d := .refl d
  match s with
  | .block _ body => exact runs_lowerBody body d
  | .ifElse _ condition thenBranch none =>
      have hc := (h₀.addLabel.lower condition).jump .jumpOnFalse rfl d.nextLabel
      have ht := (hc.trans (thenBranch.runs_lower _)).bind d.nextLabel
      simp only [Stmt.visits, visitsOfClause, Stmt.arrayLoops, arrayLoopsOfClause,
        List.append_nil]
      exact ht
  | .ifElse _ condition thenBranch (some elseBranch) =>
      have hc := (h₀.addLabel.lower condition).jump .jumpOnFalse rfl d.nextLabel
      have ht := (hc.trans (thenBranch.runs_lower _)).addLabel
      exact (((ht.jump .jump rfl _).bind _).trans (elseBranch.runs_lower _)).bind _
  | .whileLoop _ condition body =>
      have hg := (h₀.addLabel.addLabel.bind d.nextLabel).guard (d.nextLabel + 1) (some condition)
      exact ((hg.body (body.runs_lower _)).jump .jump rfl _).bind _
  | .forLoop _ init condition step body =>
      have hi := runs_lowerClause init d
      let start := (lowerClause scope init d).nextLabel
      have hg := (hi.addLabel.addLabel.addLabel.bind start).guard (start + 2) condition
      have hb := (hg.body (body.runs_lower
        (Draft.enterLoop _ ⟨start + 2, start + 1⟩))).bind (start + 1)
      exact ((hb.trans (runs_lowerClause step _)).jump .jump rfl _).bind _
  | .foreach _ item collection body =>
      have hk := ArraySlots.kept_enter d scope collection
      let d' := d.enter scope collection
      have hstart : d'.Runs scope [] [] (d'.addLabel.addLabel.addLabel.bind d'.nextLabel) :=
        (Draft.Runs.refl d').addLabel.addLabel.addLabel.bind _
      have helement := hstart.follow
        (ArraySlots.runs_element (hk.grows hstart.grows) (d'.nextLabel + 2))
      have hitem := (helement.define item.value item.span .evalLocalRef rfl).emit .setVariable rfl
      have hbody := (hitem.body (body.runs_lower
        (Draft.enterLoop _ ⟨d'.nextLabel + 2, d'.nextLabel + 1⟩))).bind (d'.nextLabel + 1)
      have hnext := hbody.follow (ArraySlots.runs_advance (hk.grows hbody.grows))
      have hall := (h₀.enter item collection).trans
        ((hnext.jump .jump rfl d'.nextLabel).bind (d'.nextLabel + 2))
      simp only [Stmt.visits]
      rw [List.append_assoc]
      exact hall
  | .ret _ none | .waitFrame _ => exact h₀.emit _ rfl
  | .ret _ (some value) | .wait _ value => exact (h₀.lower value).emit _ rfl
  | .breakLoop _ | .continueLoop _ =>
      simp only [Stmt.lower]
      split
      · exact h₀.jump _ rfl _
      · exact h₀.report _ _
  | .waitTill _ object event targets =>
      exact ((((h₀.lower event).lower object).emit _ rfl).receive targets).emit _ rfl
  | .notify span object event args =>
      simp only [Stmt.lower]
      have hr : d.Runs scope [] []
          (if argumentLimit < args.length then d.report .tooManyNotifyArguments span else d) := by
        split
        · exact h₀.report _ _
        · exact h₀
      have ha := (hr.emit .preScriptCall rfl).evaluate (evaluates_lowerArgs scope args _)
      exact ((ha.lower event).lower object).emit _ rfl
  | .endOn _ object event => exact ((h₀.lower event).lower object).emit _ rfl
  | .assign span target op value => exact h₀.assignOp span target value op
  | .incDec _ target increment =>
      exact (h₀.lowerRef false target).emit _ (by cases increment <;> rfl)
  | .expr _ value =>
      cases value with
      | call span object thread callee args =>
          exact (h₀.lower (.call span object thread callee args)).emit _ rfl
      | _ => exact h₀.evaluate (d.evaluates_refusal _ _ _)
  | .empty _ => exact h₀

theorem runs_lowerBody (body : List Stmt) (d : Draft) :
    d.Runs scope (visitsOfBody scope body) (arrayLoopsOfBody body)
      (lowerBody scope body d) := by
  match body with
  | [] => exact .refl d
  | s :: rest => exact (s.runs_lower d).trans (runs_lowerBody rest _)

theorem runs_lowerClause (clause : Option Stmt) (d : Draft) :
    d.Runs scope (visitsOfClause scope clause) (arrayLoopsOfClause clause)
      (lowerClause scope clause d) := by
  match clause with
  | none => exact .refl d
  | some s => exact s.runs_lower d

end

end

end Gsc
