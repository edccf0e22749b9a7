import Gsc.Proofs.Lowering.Operands

/-! # Lowering only extends

`Binds` follows lowering step by step: the stack of loops ends as it began, each new label is bound
once, and of the loop control exactly what stands in no loop is reported. With what `Builds` says
about instructions and labels, this is all that lowering does to what was there before.
-/

namespace Gsc

/-! ## Loop control -/

structure LoopControl where
  /-- A `break`; otherwise it is a `continue`. -/
  isBreak : Bool
  span : Span
  /-- How many loops of the function have it in their bodies. -/
  depth : Nat
  deriving DecidableEq, Repr

/-- What is found wrong with a `break` or `continue` that has no loop to control. -/
def LoopControl.finding (c : LoopControl) : Finding :=
  ⟨if c.isBreak then .breakOutsideLoop else .continueOutsideLoop, c.span⟩

/-- Findings about the ones that are in no loop. -/
def LoopControl.strays (controls : List LoopControl) : List Finding :=
  (controls.filter (·.depth = 0)).map LoopControl.finding

theorem LoopControl.strays_append (controls more : List LoopControl) :
    strays (controls ++ more) = strays controls ++ strays more := by
  simp [strays]

mutual

/-- The loop control of a statement that stands in the bodies of `depth` loops. What comes first or
after each turn of a `for` is not in its body. -/
def Stmt.controls (depth : Nat) : Stmt → List LoopControl
  | .breakLoop span => [⟨true, span, depth⟩]
  | .continueLoop span => [⟨false, span, depth⟩]
  | .block _ body => controlsOfBody depth body
  | .ifElse _ _ thenBranch elseBranch =>
    thenBranch.controls depth ++ controlsOfClause depth elseBranch
  | .whileLoop _ _ body => body.controls (depth + 1)
  | .forLoop _ init _ step body =>
    controlsOfClause depth init ++ body.controls (depth + 1) ++ controlsOfClause depth step
  | .foreach _ _ _ body => body.controls (depth + 1)
  | .ret .. | .wait .. | .waitFrame _ | .waitTill .. | .notify .. | .endOn .. | .assign ..
  | .incDec .. | .expr .. | .empty _ => []

def controlsOfBody (depth : Nat) : List Stmt → List LoopControl
  | [] => []
  | s :: rest => s.controls depth ++ controlsOfBody depth rest

def controlsOfClause (depth : Nat) : Option Stmt → List LoopControl
  | none => []
  | some s => s.controls depth

end

def Function.controls (f : Function) : List LoopControl := controlsOfBody 0 f.body

def Defect.isStray : Defect → Bool
  | .breakOutsideLoop | .continueOutsideLoop => true
  | _ => false

theorem CallPlan.isStray_of_make {scope : Scope} {onObject thread : Bool} {count : UInt8}
    {callee : Callee} {defect : Defect}
    (h : make scope onObject thread count callee = .error defect) : defect.isStray = false := by
  unfold make at h
  split at h
  · split at h
    · cases h
    · split at h
      · cases h
        rfl
      · split at h
        · cases h
          rfl
        · cases h
  · cases h
  · cases h

namespace Draft

def strays (d : Draft) : List Finding := d.findings.toList.filter (·.defect.isStray)

theorem strays_report (d : Draft) (defect : Defect) (span : Span) :
    (d.report defect span).strays =
      d.strays ++ if defect.isStray then [⟨defect, span⟩] else [] := by
  simp [strays, report, List.filter_cons]

/-! ## Steps -/

/-- Between the two drafts each label that is new has been bound once, except for those that are
`pending`, and `reported` are the new findings about loop control. -/
structure Binds (pending : List Nat) (reported : List Finding) (d d' : Draft) : Prop where
  bound : ∃ more, d'.bound.toList = d.bound.toList ++ more ∧
    (List.range d.labels.size ++ more ++ pending).Perm (List.range d'.labels.size)
  loops : d'.loops = d.loops
  strays : d'.strays = d.strays ++ reported

namespace Binds

variable {pending : List Nat} {reported more : List Finding} {d d' d'' : Draft}

theorem refl (d : Draft) : d.Binds [] [] d := ⟨⟨[], by simp⟩, rfl, by simp⟩

theorem trans (h : d.Binds pending reported d') (h' : d'.Binds [] more d'') :
    d.Binds pending (reported ++ more) d'' := by
  obtain ⟨first, hfirst, hperm⟩ := h.bound
  obtain ⟨second, hsecond, hperm'⟩ := h'.bound
  refine ⟨⟨first ++ second, ?_, ?_⟩, h'.loops.trans h.loops, ?_⟩
  · rw [hsecond, hfirst, List.append_assoc]
  · rw [List.append_nil] at hperm'
    refine List.Perm.trans ?_ ((hperm.append_right second).trans hperm')
    simp only [List.append_assoc]
    exact (List.perm_append_comm.append_left first).append_left _
  · rw [h'.strays, h.strays, List.append_assoc]

/-- A part that reports nothing. -/
theorem andThen (h : d.Binds pending reported d') (h' : d'.Binds [] [] d'') :
    d.Binds pending reported d'' := by
  have ht := h.trans h'
  rwa [List.append_nil] at ht

theorem emitWith (h : d.Binds pending reported d') (opcode : Opcode) (operands : List Operand) :
    d.Binds pending reported (d'.emitWith opcode operands) :=
  ⟨h.bound, h.loops, h.strays⟩

theorem emit (h : d.Binds pending reported d') (opcode : Opcode) :
    d.Binds pending reported (d'.emit opcode) :=
  h.emitWith opcode []

theorem jump (h : d.Binds pending reported d') (opcode : Opcode) (label : Nat) :
    d.Binds pending reported (d'.jump opcode label) :=
  h.emitWith opcode [.label label]

theorem report {defect : Defect} (h : d.Binds pending reported d') (hd : defect.isStray = false)
    (span : Span) : d.Binds pending reported (d'.report defect span) := by
  refine ⟨h.bound, h.loops, ?_⟩
  rw [strays_report, hd, h.strays]
  simp

/-- A finding about loop control. -/
theorem reportStray {defect : Defect} (h : d.Binds pending reported d')
    (hd : defect.isStray = true) (span : Span) :
    d.Binds pending (reported ++ [⟨defect, span⟩]) (d'.report defect span) := by
  refine ⟨h.bound, h.loops, ?_⟩
  rw [strays_report, if_pos hd, h.strays, List.append_assoc]

/-- A new label is pending. -/
theorem addLabel {l : Nat} (h : d.Binds pending reported d') (hl : d'.nextLabel = l) :
    d.Binds (pending ++ [l]) reported d'.addLabel := by
  obtain ⟨more, hmore, hperm⟩ := h.bound
  refine ⟨⟨more, hmore, ?_⟩, h.loops, h.strays⟩
  have hsize : d'.addLabel.labels.size = d'.labels.size + 1 := by simp [Draft.addLabel]
  rw [hsize, List.range_succ, ← List.append_assoc, ← hl]
  exact hperm.append_right _

/-- The first pending label is bound. -/
theorem bind {l : Nat} (h : d.Binds (l :: pending) reported d') :
    d.Binds pending reported (d'.bind l) := by
  obtain ⟨more, hmore, hperm⟩ := h.bound
  refine ⟨⟨more ++ [l], ?_, ?_⟩, h.loops, h.strays⟩
  · rw [Draft.bind, Array.toList_push, hmore, List.append_assoc]
  · have hsize : (d'.bind l).labels.size = d'.labels.size := by simp [Draft.bind]
    rw [hsize]
    simpa using hperm

/-- The body of a loop has the loop on the stack, and what follows it does not. -/
theorem body {labels : LoopLabels} (h : d.Binds pending reported d')
    (hbody : (d'.enterLoop labels).Binds [] more d'') :
    d.Binds pending (reported ++ more) d''.leaveLoop := by
  have hleave : d''.leaveLoop.loops = d'.loops := by
    rw [leaveLoop, hbody.loops]
    rfl
  exact h.trans ⟨hbody.bound, hleave, hbody.strays⟩

theorem length_loops {depth : Nat} (h : d.Binds pending reported d')
    (hdepth : d.loops.length = depth) : d'.loops.length = depth := by
  rw [h.loops, hdepth]

theorem length_enterLoop {depth : Nat} (h : d.Binds pending reported d')
    (hdepth : d.loops.length = depth) (labels : LoopLabels) :
    (d'.enterLoop labels).loops.length = depth + 1 :=
  congrArg (· + 1) (h.length_loops hdepth)

theorem defineSlot (h : d.Binds pending reported d') (name : String) (span : Span) :
    d.Binds pending reported (d'.defineSlot name span).2 := by
  unfold Draft.defineSlot
  split
  · exact ⟨h.bound, h.loops, h.strays⟩
  · exact h.report rfl span

theorem pushInt (h : d.Binds pending reported d') (value : Int64) (span : Span) :
    d.Binds pending reported (d'.pushInt value span) := by
  rcases pushInt_cases d' value span with ⟨i, -, he⟩ | ⟨-, he⟩
  · rw [he]
    exact h.emitWith _ _
  · rw [he]
    exact h.report rfl span

theorem store (h : d.Binds pending reported d') (slot : Nat) :
    d.Binds pending reported (d'.store slot) :=
  (h.emitWith _ _).emitWith _ _

theorem receive (h : d.Binds pending reported d') (targets : List (Located String)) :
    d.Binds pending reported (d'.receive targets) := by
  induction targets generalizing d' with
  | nil => exact h
  | cons v rest ih => exact ih ((h.defineSlot v.value v.span).emitWith _ _)

theorem defineParams (h : d.Binds pending reported d') (seen : List String)
    (params : List (Located String)) :
    d.Binds pending reported (Draft.defineParams seen params d') := by
  induction params generalizing seen d' with
  | nil => exact h
  | cons p rest ih =>
      unfold Draft.defineParams
      split
      · exact ih (h.report rfl p.span) seen
      · exact ih (h.defineSlot p.value p.span) _

theorem startCall (h : d.Binds pending reported d') (plan : CallPlan) :
    d.Binds pending reported (plan.start d') := by
  unfold CallPlan.start
  split
  · exact h.emitWith _ _
  · exact h

theorem defineArraySlots (h : d.Binds pending reported d') (span : Span) :
    d.Binds pending reported (ArraySlots.define d' span).2 := by
  have hn : d.Binds pending reported { d' with arrayLoops := d'.arrayLoops + 1 } :=
    ⟨h.bound, h.loops, h.strays⟩
  exact (hn.defineSlot _ _).defineSlot _ _

theorem first (h : d.Binds pending reported d') (slots : ArraySlots) :
    d.Binds pending reported (slots.first d') :=
  (((h.store _).emitWith _ _).emitWith _ _).store _

theorem element (h : d.Binds pending reported d') (slots : ArraySlots) (exit : Nat) :
    d.Binds pending reported (slots.element exit d') :=
  (((((h.emitWith _ _).emitWith _ _).emitWith _ _).emitWith _ _).emitWith _ _).emitWith _ _

theorem advance (h : d.Binds pending reported d') (slots : ArraySlots) :
    d.Binds pending reported (slots.advance d') :=
  (((h.emitWith _ _).emitWith _ _).emitWith _ _).store _

end Binds

end Draft

/-! ## Expressions -/

section

variable (scope : Scope)

mutual

theorem Expr.binds_lower (e : Expr) (d : Draft) : d.Binds [] [] (e.lower scope d) := by
  have h₀ := Draft.Binds.refl d
  match e with
  | .int span v => exact h₀.pushInt v span
  | .float .. | .text .. | .localized .. | .undefined _ | .level _ | .self _ | .game _ | .anim _
  | .emptyArray _ | .bool _ true | .bool _ false | .functionRef _ (some _) _ =>
      simp only [Expr.lower]
      exact h₀.emitWith _ _
  | .vector _ x y z =>
      have hx := x.binds_lower d
      have hy := hx.andThen (y.binds_lower _)
      exact (hy.andThen (z.binds_lower _)).emit _
  | .ident span name =>
      simp only [Expr.lower]
      split
      · exact h₀.emitWith _ _
      · exact h₀.report rfl _
  | .functionRef span none name =>
      simp only [Expr.lower]
      split
      · exact h₀.emitWith _ _
      · exact h₀.report rfl _
  | .field _ base name =>
      simp only [Expr.lower]
      split
      · exact (base.binds_lower d).emit _
      · exact (base.binds_lower d).emitWith _ _
  | .index _ base i => exact ((i.binds_lower d).andThen (base.binds_lower _)).emit _
  | .call span object thread callee args =>
      simp only [Expr.lower]
      split
      · exact h₀.report rfl _
      · cases hmake : CallPlan.make scope object.isSome thread args.length.toUInt8 callee with
        | error defect => exact h₀.report (CallPlan.isStray_of_make hmake) _
        | ok plan =>
            have ha := (h₀.startCall plan).andThen (binds_lowerArgs args _)
            have ho := ha.andThen (binds_lowerObject object _)
            exact (ho.andThen (callee.binds_lowerTarget _)).emitWith _ _
  | .unary span .neg operand =>
      rcases operand.lower_neg_cases scope span d with ⟨s, v, rfl⟩ | ⟨s, v, rfl⟩ | he
      · exact h₀.pushInt (-v) _
      · exact h₀.emitWith _ _
      · rw [he]
        exact ((h₀.emit .getZero).andThen (operand.binds_lower _)).emit _
  | .unary _ .not operand | .unary _ .bitNot operand => exact (operand.binds_lower d).emit _
  | .binary _ left op right =>
      have hboth := (left.binds_lower d).andThen (right.binds_lower _)
      have hleft := (h₀.addLabel rfl).andThen (left.binds_lower d.addLabel)
      cases op with
      | and | or => exact ((hleft.jump _ _).andThen (right.binds_lower _)).bind
      | _ => exact hboth.emit _
  | .ternary _ condition thenExpr elseExpr =>
      have hc := ((h₀.addLabel rfl).addLabel rfl).andThen (condition.binds_lower _)
      have ht := (hc.jump .jumpOnFalse d.nextLabel).andThen (thenExpr.binds_lower _)
      have hj := (ht.jump .jump d.addLabel.nextLabel).bind
      exact (hj.andThen (elseExpr.binds_lower _)).bind

theorem Callee.binds_lowerTarget (callee : Callee) (d : Draft) :
    d.Binds [] [] (callee.lowerTarget scope d) := by
  match callee with
  | .pointer target => exact target.binds_lower d
  | .named _ => exact .refl d
  | .far _ _ => exact .refl d

theorem binds_lowerObject (object : Option Expr) (d : Draft) :
    d.Binds [] [] (lowerObject scope object d) := by
  match object with
  | none => exact .refl d
  | some e => exact e.binds_lower d

theorem binds_lowerArgs (args : List Expr) (d : Draft) :
    d.Binds [] [] (lowerArgs scope args d) := by
  match args with
  | [] => exact .refl d
  | arg :: rest => exact (binds_lowerArgs rest d).andThen (arg.binds_lower _)

end

namespace Draft.Binds

variable {pending : List Nat} {reported : List Finding} {d d' : Draft}

theorem lower (h : d.Binds pending reported d') (e : Expr) :
    d.Binds pending reported (e.lower scope d') :=
  h.andThen (e.binds_lower scope d')

theorem lowerRef {d' : Draft} (h : d.Binds pending reported d') (defining : Bool) (e : Expr) :
    d.Binds pending reported (e.lowerRef scope defining d') := by
  match e with
  | .ident span name =>
      simp only [Expr.lowerRef]
      split
      · exact (h.defineSlot name span).emitWith _ _
      · split
        · exact h.emitWith _ _
        · exact h.report rfl _
  | .field span base name =>
      simp only [Expr.lowerRef]
      split
      · exact h.report rfl _
      · exact (h.lower scope base).emitWith _ _
  | .index _ base i => exact ((h.lower scope i).lowerRef defining base).emit _
  | .int .. | .float .. | .text .. | .localized .. | .undefined _ | .bool .. | .level _ | .self _
  | .game _ | .anim _ | .emptyArray _ | .vector .. | .functionRef .. | .call .. | .unary ..
  | .binary .. | .ternary .. => exact h.report rfl _

/-! ## Statements -/

theorem guard (h : d.Binds pending reported d') (exit : Nat) (condition : Option Expr) :
    d.Binds pending reported (d'.guard scope exit condition) := by
  cases condition with
  | none => exact h
  | some condition =>
      simp only [Draft.guard]
      split
      · exact h
      · exact (h.lower scope condition).jump _ _

theorem assignOp (h : d.Binds pending reported d') (span : Span) (target value : Expr)
    (op : AssignOp) : d.Binds pending reported (op.lower scope span target value d') := by
  cases op with
  | assign => exact ((h.lower scope value).lowerRef scope true target).emit _
  | compound op =>
      have hboth := (h.lower scope target).lower scope value
      simp only [AssignOp.lower]
      cases op.opcode? with
      | some opcode => exact ((hboth.emit opcode).lowerRef scope false target).emit _
      | none => exact ((hboth.report rfl span).lowerRef scope false target).emit _

/-- The labels of a loop with a step: its start, which is bound, the step and the exit. -/
theorem startLoop (h : d.Binds [] reported d') :
    d.Binds [d'.nextLabel + 1, d'.nextLabel + 2] reported
      (d'.addLabel.addLabel.addLabel.bind d'.nextLabel) :=
  (((h.addLabel rfl).addLabel d'.nextLabel_addLabel).addLabel (by simp)).bind

end Draft.Binds

mutual

/-- A statement reports the loop control in it that no loop has in its body. -/
theorem Stmt.binds_lower {depth : Nat} (s : Stmt) (d : Draft) (hdepth : d.loops.length = depth) :
    d.Binds [] (LoopControl.strays (s.controls depth)) (s.lower scope d) := by
  have h₀ := Draft.Binds.refl d
  match s with
  | .block _ body => exact binds_lowerBody body d hdepth
  | .ifElse _ condition thenBranch none =>
      have hc := ((h₀.addLabel rfl).lower scope condition).jump .jumpOnFalse d.nextLabel
      have ht := (hc.trans (thenBranch.binds_lower _ (hc.length_loops hdepth))).bind
      simp only [Stmt.controls, controlsOfClause, List.append_nil]
      exact ht
  | .ifElse _ condition thenBranch (some elseBranch) =>
      have hc := ((h₀.addLabel rfl).lower scope condition).jump .jumpOnFalse d.nextLabel
      have ht := hc.trans (thenBranch.binds_lower _ (hc.length_loops hdepth))
      have hj := fun done => ((ht.addLabel rfl).jump .jump done).bind
      simp only [Stmt.controls, controlsOfClause, LoopControl.strays_append]
      exact ((hj _).trans (elseBranch.binds_lower _ ((hj _).length_loops hdepth))).bind
  | .whileLoop _ condition body =>
      have hstart := ((h₀.addLabel rfl).addLabel d.nextLabel_addLabel).bind
      have hg := hstart.guard scope (d.nextLabel + 1) (some condition)
      have hb := hg.body (body.binds_lower
        (Draft.enterLoop _ ⟨d.nextLabel + 1, d.nextLabel⟩) (hg.length_enterLoop hdepth _))
      exact (hb.jump .jump d.nextLabel).bind
  | .forLoop _ init condition step body =>
      have hi := binds_lowerClause init d hdepth
      let start := (lowerClause scope init d).nextLabel
      have hg := hi.startLoop.guard scope (start + 2) condition
      have hb := (hg.body (body.binds_lower (Draft.enterLoop _ ⟨start + 2, start + 1⟩)
        (hg.length_enterLoop hdepth _))).bind
      have hs := hb.trans (binds_lowerClause step _ (hb.length_loops hdepth))
      simp only [Stmt.controls, LoopControl.strays_append]
      exact (hs.jump .jump start).bind
  | .foreach _ item collection body =>
      let slots := (ArraySlots.define d collection.span).1
      have hf := ((h₀.defineArraySlots collection.span).lower scope collection).first slots
      let start := (slots.first
        (collection.lower scope (ArraySlots.define d collection.span).2)).nextLabel
      have he := hf.startLoop.element slots (start + 2)
      have hs := fun slot => (he.defineSlot item.value item.span).store slot
      have hb := fun slot => ((hs slot).body (body.binds_lower
        (Draft.enterLoop _ ⟨start + 2, start + 1⟩) ((hs slot).length_enterLoop hdepth _))).bind
      exact (((hb _).advance slots).jump .jump start).bind
  | .ret _ none | .waitFrame _ => exact h₀.emit _
  | .ret _ (some value) | .wait _ value => exact (h₀.lower scope value).emit _
  | .breakLoop span | .continueLoop span =>
      simp only [Stmt.controls, Stmt.lower]
      subst hdepth
      cases d.loops with
      | nil => exact h₀.reportStray rfl span
      | cons labels outer => exact h₀.jump _ _
  | .waitTill _ object event targets =>
      exact ((((h₀.lower scope event).lower scope object).emit .waitTill).receive targets).emit _
  | .notify span object event args =>
      have hr : d.Binds [] []
          (if argumentLimit < args.length then d.report .tooManyNotifyArguments span else d) := by
        split
        · exact h₀.report rfl _
        · exact h₀
      have ha := (hr.emit .preScriptCall).andThen (binds_lowerArgs scope args _)
      simp only [Stmt.controls, Stmt.lower]
      exact ((ha.lower scope event).lower scope object).emit _
  | .endOn _ object event => exact ((h₀.lower scope event).lower scope object).emit _
  | .assign span target op value => exact h₀.assignOp scope span target value op
  | .incDec _ target increment => exact (h₀.lowerRef scope false target).emit _
  | .expr _ value =>
      cases value with
      | call span object thread callee args =>
          exact (h₀.lower scope (.call span object thread callee args)).emit _
      | _ => exact h₀.report rfl _
  | .empty _ => exact h₀

theorem binds_lowerBody {depth : Nat} (body : List Stmt) (d : Draft)
    (hdepth : d.loops.length = depth) :
    d.Binds [] (LoopControl.strays (controlsOfBody depth body)) (lowerBody scope body d) := by
  match body with
  | [] => exact .refl d
  | s :: rest =>
      have hs := s.binds_lower d hdepth
      simp only [controlsOfBody, LoopControl.strays_append]
      exact hs.trans (binds_lowerBody rest _ (hs.length_loops hdepth))

theorem binds_lowerClause {depth : Nat} (clause : Option Stmt) (d : Draft)
    (hdepth : d.loops.length = depth) :
    d.Binds [] (LoopControl.strays (controlsOfClause depth clause))
      (lowerClause scope clause d) := by
  match clause with
  | none => exact .refl d
  | some s => exact s.binds_lower d hdepth

end

end

/-! ## What is left alone -/

namespace Draft

/-- The second draft comes from the first by additions alone. New instructions jump to `targets`
or to new labels, and `reported` are the new findings about loop control. -/
structure OnlyExtends (targets : Nat → Prop) (reported : List Finding) (d d' : Draft) : Prop where
  /-- Instructions, labels, slots and findings are still there, in the same place. -/
  keeps : d.Extends d'
  /-- A new label leads to a place between the old end of the code and the new one. -/
  leads : ∀ l, d.Made d' l → ∃ i, d'.labels.toList[l]? = some (some i) ∧
    d.code.size ≤ i ∧ i ≤ d'.code.size
  /-- The new labels have been bound once each, and no others. -/
  bindsOnce : ∃ more, d'.bound.toList = d.bound.toList ++ more ∧ more.Nodup ∧
    ∀ l, l ∈ more ↔ d.Made d' l
  jumps : ∀ i ∈ d'.code.toList.drop d.code.size, ∀ l, .label l ∈ i.operands →
    targets l ∨ d.Made d' l
  /-- The loops around are the same. -/
  restores : d'.loops = d.loops
  reports : d'.strays = d.strays ++ reported

/-- The labels that join those up to one number to make those up to another are the ones between. -/
theorem mem_iff_of_perm_range {old new : Nat} {more : List Nat}
    (h : (List.range old ++ more).Perm (List.range new)) :
    more.Nodup ∧ ∀ l, l ∈ more ↔ old ≤ l ∧ l < new := by
  obtain ⟨-, hnodup, hapart⟩ := List.nodup_append.1 (h.nodup_iff.2 List.nodup_range)
  refine ⟨hnodup, fun l => ?_⟩
  have hmem := h.mem_iff (a := l)
  rw [List.mem_append, List.mem_range, List.mem_range] at hmem
  constructor
  · intro hl
    have hnot : ¬ l < old := fun hlt => hapart l (List.mem_range.2 hlt) l hl rfl
    exact ⟨Nat.le_of_not_lt hnot, hmem.1 (.inr hl)⟩
  · rintro ⟨hge, hlt⟩
    exact (hmem.2 hlt).resolve_left (Nat.not_lt.2 hge)

theorem Binds.onlyExtends {targets : Nat → Prop} {reported : List Finding} {d d' : Draft}
    (h : d.Binds [] reported d') (hb : d.Builds (fun _ => True) targets [] d') :
    d.OnlyExtends targets reported d' := by
  obtain ⟨more, hmore, hperm⟩ := h.bound
  rw [List.append_nil] at hperm
  exact
    { keeps := hb.grows
      leads := fun l hl => hb.bound l hl List.not_mem_nil
      bindsOnce := ⟨more, hmore, mem_iff_of_perm_range hperm⟩
      jumps := fun i hi l hl => (hb.code i hi).within _ hl
      restores := h.loops
      reports := h.strays }

end Draft

/-- Of the loop control of a function exactly what stands in no loop is reported. -/
theorem Function.strays_lower (scope : Scope) (f : Function) :
    (f.lower scope).2.filter (·.defect.isStray) = LoopControl.strays f.controls := by
  let start := (Draft.empty.defineParams [] f.params).emit .createLocalVariables
  have hstart : Draft.empty.Binds [] [] start :=
    ((Draft.Binds.refl .empty).defineParams [] f.params).emit .createLocalVariables
  have hbody := binds_lowerBody scope f.body start (hstart.length_loops rfl)
  exact (hstart.trans hbody).strays

/-- Whatever the draft, expressions (among them calls), references and statements only add to it.
Statements in a loop may jump where its `break` and `continue` go. A `break` or `continue` is
reported exactly if it is in no loop body, neither in one of the statement nor in one around it. -/
theorem lowering_only_extends (scope : Scope) (d : Draft) :
    (∀ e : Expr, d.OnlyExtends (fun _ => False) [] (e.lower scope d)) ∧
    (∀ (defining : Bool) (e : Expr),
      d.OnlyExtends (fun _ => False) [] (e.lowerRef scope defining d)) ∧
    (∀ s : Stmt, d.OnlyExtends d.Targets (LoopControl.strays (s.controls d.loops.length))
      (s.lower scope d)) ∧
    ∀ f : Function,
      (f.lower scope).2.filter (·.defect.isStray) = LoopControl.strays f.controls := by
  refine ⟨fun e => ?_, fun defining e => ?_, fun s => ?_, fun f => f.strays_lower scope⟩
  · exact (e.binds_lower scope d).onlyExtends (e.builds_lower scope _ fun _ _ => trivial)
  · exact ((Draft.Binds.refl d).lowerRef scope defining e).onlyExtends
      ((Draft.Builds.refl _).lowerRef scope defining e fun _ _ => trivial)
  · exact (s.binds_lower scope d rfl).onlyExtends
      (s.builds_lower scope (fun _ _ => trivial) _ fun _ _ => trivial)

end Gsc
