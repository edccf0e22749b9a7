import Gsc.Lowering.Script
import Gsc.Proofs.Script.Uses

/-! # What lowering comes to

Lowering walks through a function and looks at every number and variable, except in the parts that
it refuses: calls that cannot be made, targets that cannot be assigned to, and expressions that are
no statements. Of such a part it reports the part itself and nothing inside.
-/

namespace Gsc

/-- A use that lowering comes to, or a part that it refuses with the uses inside. -/
inductive Visit where
  | use (u : Use)
  | refusal (finding : Finding) (skipped : List Use)
  deriving DecidableEq, Repr

def Visit.uses : Visit → List Use
  | use u => [u]
  | refusal _ skipped => skipped

mutual

def Expr.visits (scope : Scope) : Expr → List Visit
  | .int span value => [.use (.literal span value.toInt)]
  | .ident span name => [.use (.read span name)]
  | .float .. | .text .. | .localized .. | .undefined _ | .bool .. | .level _ | .self _ | .game _
  | .anim _ | .emptyArray _ | .functionRef .. => []
  | .vector _ x y z => x.visits scope ++ y.visits scope ++ z.visits scope
  | .field _ base _ => base.visits scope
  | .index _ base i => i.visits scope ++ base.visits scope
  | .call span object thread callee args =>
    if argumentLimit < args.length then
      [.refusal ⟨.tooManyArguments, span⟩ (usesOfArgs args ++ usesOfObject object ++ callee.uses)]
    else
      match CallPlan.make scope object.isSome thread args.length.toUInt8 callee with
      | .error defect =>
        [.refusal ⟨defect, span⟩ (usesOfArgs args ++ usesOfObject object ++ callee.uses)]
      | .ok _ => visitsOfArgs scope args ++ visitsOfObject scope object ++ callee.visits scope
  | .unary span .neg (.int _ value) => [.use (.literal span (-value.toInt))]
  | .unary _ _ operand => operand.visits scope
  | .binary _ left _ right => left.visits scope ++ right.visits scope
  | .ternary _ condition thenExpr elseExpr =>
    condition.visits scope ++ thenExpr.visits scope ++ elseExpr.visits scope

def Callee.visits (scope : Scope) : Callee → List Visit
  | .named _ | .far .. => []
  | .pointer target => target.visits scope

def visitsOfObject (scope : Scope) : Option Expr → List Visit
  | none => []
  | some object => object.visits scope

def visitsOfArgs (scope : Scope) : List Expr → List Visit
  | [] => []
  | arg :: rest => visitsOfArgs scope rest ++ arg.visits scope

end

def Expr.targetVisits (scope : Scope) (defining : Bool) : Expr → List Visit
  | .ident _ name => if defining then [.use (.define name)] else []
  | .field span base name =>
    if name = "size" then [.refusal ⟨.sizeAssigned, span⟩ base.uses] else base.visits scope
  | .index _ base i => i.visits scope ++ base.targetVisits scope defining
  | target => [.refusal ⟨.invalidTarget, target.span⟩ target.uses]

def visitsOfCondition (scope : Scope) : Option Expr → List Visit
  | none => []
  | some (.int span value) =>
    if value = 0 then [.use (.literal span 0)] else [.use (.condition span value.toInt)]
  | some condition => condition.visits scope

mutual

def Stmt.visits (scope : Scope) : Stmt → List Visit
  | .block _ body => visitsOfBody scope body
  | .ifElse _ condition thenBranch elseBranch =>
    condition.visits scope ++ thenBranch.visits scope ++ visitsOfClause scope elseBranch
  | .whileLoop _ condition body => visitsOfCondition scope (some condition) ++ body.visits scope
  | .forLoop _ init condition step body =>
    visitsOfClause scope init ++ visitsOfCondition scope condition ++ body.visits scope
      ++ visitsOfClause scope step
  | .foreach _ item collection body =>
    collection.visits scope ++ [.use (.define item.value)] ++ body.visits scope
  | .ret _ value => visitsOfObject scope value
  | .wait _ duration => duration.visits scope
  | .waitFrame _ | .breakLoop _ | .continueLoop _ | .empty _ => []
  | .waitTill _ object event targets =>
    event.visits scope ++ object.visits scope ++ targets.map fun v => .use (.define v.value)
  | .notify _ object event args =>
    visitsOfArgs scope args ++ event.visits scope ++ object.visits scope
  | .endOn _ object event => event.visits scope ++ object.visits scope
  | .assign _ target .assign value => value.visits scope ++ target.targetVisits scope true
  | .assign _ target (.compound _) value =>
    target.visits scope ++ value.visits scope ++ target.targetVisits scope false
  | .incDec _ target _ => target.targetVisits scope false
  | .expr _ (.call span object thread callee args) =>
    (Expr.call span object thread callee args).visits scope
  | .expr _ value => [.refusal ⟨.notACall, value.span⟩ value.uses]

def visitsOfBody (scope : Scope) : List Stmt → List Visit
  | [] => []
  | s :: rest => s.visits scope ++ visitsOfBody scope rest

def visitsOfClause (scope : Scope) : Option Stmt → List Visit
  | none => []
  | some s => s.visits scope

end

def Function.visits (scope : Scope) (f : Function) : List Visit := visitsOfBody scope f.body

/-! ## No use is left out -/

section

variable (scope : Scope)

theorem Expr.visits_neg (span : Span) (operand : Expr) :
    (∃ s v, operand = .int s v) ∨
      (Expr.unary span .neg operand).visits scope = operand.visits scope := by
  cases operand with
  | int s v => exact .inl ⟨s, v, rfl⟩
  | _ => exact .inr (by simp only [Expr.visits])

mutual

theorem Expr.uses_visits (e : Expr) : (e.visits scope).flatMap Visit.uses = e.uses := by
  match e with
  | .int .. | .ident .. => rfl
  | .float .. | .text .. | .localized .. | .undefined _ | .bool .. | .level _ | .self _
  | .game _ | .anim _ | .emptyArray _ | .functionRef .. => rfl
  | .vector _ x y z =>
      simp only [Expr.visits, Expr.uses, List.flatMap_append, x.uses_visits, y.uses_visits,
        z.uses_visits]
  | .field _ base _ => exact base.uses_visits
  | .index _ base i =>
      simp only [Expr.visits, Expr.uses, List.flatMap_append, i.uses_visits, base.uses_visits]
  | .call span object thread callee args =>
      simp only [Expr.visits, Expr.uses]
      split
      · exact List.append_nil _
      · split
        · exact List.append_nil _
        · simp only [List.flatMap_append, uses_visitsOfArgs args, uses_visitsOfObject object,
            callee.uses_visits]
  | .unary span .neg operand =>
      rcases operand.visits_neg scope span with ⟨s, v, rfl⟩ | hv
      · rfl
      · rcases operand.uses_neg span with ⟨s, v, rfl⟩ | hu
        · rfl
        · rw [hv, hu, operand.uses_visits]
  | .unary _ .not operand | .unary _ .bitNot operand => exact operand.uses_visits
  | .binary _ left _ right =>
      simp only [Expr.visits, Expr.uses, List.flatMap_append, left.uses_visits,
        right.uses_visits]
  | .ternary _ condition thenExpr elseExpr =>
      simp only [Expr.visits, Expr.uses, List.flatMap_append, condition.uses_visits,
        thenExpr.uses_visits, elseExpr.uses_visits]

theorem Callee.uses_visits (callee : Callee) :
    (callee.visits scope).flatMap Visit.uses = callee.uses := by
  match callee with
  | .named _ | .far .. => rfl
  | .pointer target => exact target.uses_visits

theorem uses_visitsOfObject (object : Option Expr) :
    (visitsOfObject scope object).flatMap Visit.uses = usesOfObject object := by
  match object with
  | none => rfl
  | some e => exact e.uses_visits

theorem uses_visitsOfArgs (args : List Expr) :
    (visitsOfArgs scope args).flatMap Visit.uses = usesOfArgs args := by
  match args with
  | [] => rfl
  | arg :: rest =>
      simp only [visitsOfArgs, usesOfArgs, List.flatMap_append, uses_visitsOfArgs rest,
        arg.uses_visits]

end

theorem Expr.uses_targetVisits (defining : Bool) (e : Expr) :
    (e.targetVisits scope defining).flatMap Visit.uses = e.targetUses defining := by
  match e with
  | .ident _ name => cases defining <;> rfl
  | .field _ base name =>
      simp only [Expr.targetVisits, Expr.targetUses, Expr.uses]
      split
      · exact List.append_nil _
      · exact base.uses_visits scope
  | .index _ base i =>
      simp only [Expr.targetVisits, Expr.targetUses, List.flatMap_append, i.uses_visits,
        base.uses_targetVisits]
  | .int .. | .float .. | .text .. | .localized .. | .undefined _ | .bool .. | .level _ | .self _
  | .game _ | .anim _ | .emptyArray _ | .vector .. | .functionRef .. | .call .. | .unary ..
  | .binary .. | .ternary .. => exact List.append_nil _

theorem uses_visitsOfCondition (condition : Option Expr) :
    (visitsOfCondition scope condition).flatMap Visit.uses = usesOfCondition condition := by
  cases condition with
  | none => rfl
  | some e =>
      cases e with
      | int span value =>
          simp only [visitsOfCondition, usesOfCondition]
          split <;> rfl
      | _ => exact Expr.uses_visits scope _

mutual

theorem Stmt.uses_visits (s : Stmt) : (s.visits scope).flatMap Visit.uses = s.uses := by
  match s with
  | .block _ body => exact uses_visitsOfBody body
  | .ifElse _ condition thenBranch elseBranch =>
      simp only [Stmt.visits, Stmt.uses, List.flatMap_append, condition.uses_visits,
        thenBranch.uses_visits, uses_visitsOfClause elseBranch]
  | .whileLoop _ condition body =>
      simp only [Stmt.visits, Stmt.uses, List.flatMap_append, uses_visitsOfCondition,
        body.uses_visits]
  | .forLoop _ init condition step body =>
      simp only [Stmt.visits, Stmt.uses, List.flatMap_append, uses_visitsOfClause init,
        uses_visitsOfCondition, body.uses_visits, uses_visitsOfClause step]
  | .foreach _ item collection body =>
      simp only [Stmt.visits, Stmt.uses, List.flatMap_append, collection.uses_visits,
        body.uses_visits, List.flatMap_singleton, Visit.uses]
  | .ret _ value => exact uses_visitsOfObject scope value
  | .wait _ duration => exact duration.uses_visits scope
  | .waitFrame _ | .breakLoop _ | .continueLoop _ | .empty _ => rfl
  | .waitTill _ object event targets =>
      have htargets : (targets.map fun v => Visit.use (.define v.value)).flatMap Visit.uses
          = targets.map (.define ·.value) := by
        rw [List.flatMap_map]
        exact List.map_eq_flatMap.symm
      simp only [Stmt.visits, Stmt.uses, List.flatMap_append, event.uses_visits,
        object.uses_visits, htargets]
  | .notify _ object event args =>
      simp only [Stmt.visits, Stmt.uses, List.flatMap_append, uses_visitsOfArgs,
        event.uses_visits, object.uses_visits]
  | .endOn _ object event =>
      simp only [Stmt.visits, Stmt.uses, List.flatMap_append, event.uses_visits,
        object.uses_visits]
  | .assign _ target .assign value =>
      simp only [Stmt.visits, Stmt.uses, List.flatMap_append, value.uses_visits,
        target.uses_targetVisits]
  | .assign _ target (.compound _) value =>
      simp only [Stmt.visits, Stmt.uses, List.flatMap_append, target.uses_visits,
        value.uses_visits, target.uses_targetVisits]
  | .incDec _ target _ => exact target.uses_targetVisits scope false
  | .expr _ value =>
      cases value with
      | call => exact Expr.uses_visits scope _
      | _ => exact List.append_nil _

theorem uses_visitsOfBody (body : List Stmt) :
    (visitsOfBody scope body).flatMap Visit.uses = usesOfBody body := by
  match body with
  | [] => rfl
  | s :: rest =>
      simp only [visitsOfBody, usesOfBody, List.flatMap_append, s.uses_visits,
        uses_visitsOfBody rest]

theorem uses_visitsOfClause (clause : Option Stmt) :
    (visitsOfClause scope clause).flatMap Visit.uses = usesOfClause clause := by
  match clause with
  | none => rfl
  | some s => exact s.uses_visits

end

/-- Lowering comes to every use of a function or refuses a part that holds it. -/
theorem Function.visited_of_mem_uses {f : Function} {u : Use} (h : u ∈ f.uses) :
    .use u ∈ f.visits scope ∨
      ∃ finding skipped, .refusal finding skipped ∈ f.visits scope ∧ u ∈ skipped := by
  rw [Function.uses, ← uses_visitsOfBody scope, List.mem_flatMap] at h
  obtain ⟨visit, hvisit, hu⟩ := h
  cases visit with
  | use v =>
      rw [Visit.uses, List.mem_singleton] at hu
      exact .inl (hu ▸ hvisit)
  | refusal finding skipped => exact .inr ⟨finding, skipped, hvisit, hu⟩

end

end Gsc
