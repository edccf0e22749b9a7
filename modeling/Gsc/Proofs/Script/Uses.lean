import Gsc.Proofs.Script.Mentions

/-! # What a script does with numbers and variables

The integer literals of a function, the variables it reads and those it defines, in the order in
which its code is written: operands from left to right, subscripts before what they apply to, and
arguments from last to first. The loops over arrays are listed in the same order.
-/

namespace Gsc

/-- A number or a variable at one place of a function. -/
inductive Use where
  /-- An integer literal, with the sign in front of it. -/
  | literal (span : Span) (value : Int)
  /-- An integer literal other than zero that is the whole condition of a loop. -/
  | condition (span : Span) (value : Int)
  | read (span : Span) (name : String)
  | define (name : String)
  deriving DecidableEq, Repr

mutual

def Expr.uses : Expr → List Use
  | .int span value => [.literal span value.toInt]
  | .ident span name => [.read span name]
  | .float .. | .text .. | .localized .. | .undefined _ | .bool .. | .level _ | .self _ | .game _
  | .anim _ | .emptyArray _ | .functionRef .. => []
  | .vector _ x y z => x.uses ++ y.uses ++ z.uses
  | .field _ base _ => base.uses
  | .index _ base i => i.uses ++ base.uses
  | .call _ object _ callee args => usesOfArgs args ++ usesOfObject object ++ callee.uses
  | .unary span .neg (.int _ value) => [.literal span (-value.toInt)]
  | .unary _ _ operand => operand.uses
  | .binary _ left _ right => left.uses ++ right.uses
  | .ternary _ condition thenExpr elseExpr => condition.uses ++ thenExpr.uses ++ elseExpr.uses

def Callee.uses : Callee → List Use
  | .named _ | .far .. => []
  | .pointer target => target.uses

def usesOfObject : Option Expr → List Use
  | none => []
  | some object => object.uses

def usesOfArgs : List Expr → List Use
  | [] => []
  | arg :: rest => usesOfArgs rest ++ arg.uses

end

/-- The uses in an expression that is assigned to. The variable that is changed is not read; it is
defined if a new value is given to it. -/
def Expr.targetUses (defining : Bool) : Expr → List Use
  | .ident _ name => if defining then [.define name] else []
  | .index _ base i => i.uses ++ base.targetUses defining
  | target => target.uses

def usesOfCondition : Option Expr → List Use
  | none => []
  | some (.int span value) =>
    if value = 0 then [.literal span 0] else [.condition span value.toInt]
  | some condition => condition.uses

mutual

def Stmt.uses : Stmt → List Use
  | .block _ body => usesOfBody body
  | .ifElse _ condition thenBranch elseBranch =>
    condition.uses ++ thenBranch.uses ++ usesOfClause elseBranch
  | .whileLoop _ condition body => usesOfCondition (some condition) ++ body.uses
  | .forLoop _ init condition step body =>
    usesOfClause init ++ usesOfCondition condition ++ body.uses ++ usesOfClause step
  | .foreach _ item collection body => collection.uses ++ [.define item.value] ++ body.uses
  | .ret _ value => usesOfObject value
  | .wait _ duration => duration.uses
  | .waitFrame _ | .breakLoop _ | .continueLoop _ | .empty _ => []
  | .waitTill _ object event targets =>
    event.uses ++ object.uses ++ targets.map (.define ·.value)
  | .notify _ object event args => usesOfArgs args ++ event.uses ++ object.uses
  | .endOn _ object event => event.uses ++ object.uses
  | .assign _ target .assign value => value.uses ++ target.targetUses true
  | .assign _ target (.compound _) value => target.uses ++ value.uses ++ target.targetUses false
  | .incDec _ target _ => target.targetUses false
  | .expr _ value => value.uses

def usesOfBody : List Stmt → List Use
  | [] => []
  | s :: rest => s.uses ++ usesOfBody rest

def usesOfClause : Option Stmt → List Use
  | none => []
  | some s => s.uses

end

def Function.uses (f : Function) : List Use := usesOfBody f.body

/-! ## Loops over arrays -/

/-- A loop over an array: its variable and what it goes through. -/
structure ArrayLoop where
  item : Located String
  collection : Expr

mutual

def Stmt.arrayLoops : Stmt → List ArrayLoop
  | .block _ body => arrayLoopsOfBody body
  | .ifElse _ _ thenBranch elseBranch =>
    thenBranch.arrayLoops ++ arrayLoopsOfClause elseBranch
  | .whileLoop _ _ body => body.arrayLoops
  | .forLoop _ init _ step body =>
    arrayLoopsOfClause init ++ body.arrayLoops ++ arrayLoopsOfClause step
  | .foreach _ item collection body => ⟨item, collection⟩ :: body.arrayLoops
  | .ret .. | .wait .. | .waitFrame _ | .breakLoop _ | .continueLoop _ | .waitTill ..
  | .notify .. | .endOn .. | .assign .. | .incDec .. | .expr .. | .empty _ => []

def arrayLoopsOfBody : List Stmt → List ArrayLoop
  | [] => []
  | s :: rest => s.arrayLoops ++ arrayLoopsOfBody rest

def arrayLoopsOfClause : Option Stmt → List ArrayLoop
  | none => []
  | some s => s.arrayLoops

end

def Function.arrayLoops (f : Function) : List ArrayLoop := arrayLoopsOfBody f.body

/-! ## Variables are mentioned -/

/-- A sign belongs to the literal behind it, and to nothing else. -/
theorem Expr.uses_neg (span : Span) (operand : Expr) :
    (∃ s v, operand = .int s v) ∨ (Expr.unary span .neg operand).uses = operand.uses := by
  cases operand with
  | int s v => exact .inl ⟨s, v, rfl⟩
  | _ => exact .inr (by simp only [Expr.uses])

mutual

theorem Expr.mentions_of_read {e : Expr} {span : Span} {name : String}
    (h : .read span name ∈ e.uses) : .name name ∈ e.mentions := by
  match e with
  | .int .. => simp [Expr.uses] at h
  | .ident .. =>
      simp only [Expr.uses, List.mem_singleton, Use.read.injEq] at h
      simp [Expr.mentions, h.2]
  | .float .. | .text .. | .localized .. | .undefined _ | .bool .. | .level _ | .self _
  | .game _ | .anim _ | .emptyArray _ | .functionRef .. => cases h
  | .vector _ x y z =>
      simp only [Expr.uses, Expr.mentions, List.mem_append] at h ⊢
      exact h.imp (Or.imp x.mentions_of_read y.mentions_of_read) z.mentions_of_read
  | .field _ base _ =>
      simp only [Expr.mentions, List.mem_append]
      exact .inl (base.mentions_of_read h)
  | .index _ base i =>
      simp only [Expr.uses, Expr.mentions, List.mem_append] at h ⊢
      exact h.symm.imp base.mentions_of_read i.mentions_of_read
  | .call _ object _ callee args =>
      simp only [Expr.uses, Expr.mentions, List.mem_append] at h ⊢
      rcases h with (h | h) | h
      · exact .inr (mentions_of_readArgs h)
      · exact .inl (.inl (mentions_of_readObject h))
      · exact .inl (.inr (callee.mentions_of_read h))
  | .unary _ .neg operand =>
      rcases operand.uses_neg _ with ⟨s, v, rfl⟩ | hu
      · simp [Expr.uses] at h
      · exact operand.mentions_of_read (hu ▸ h)
  | .unary _ .not operand | .unary _ .bitNot operand => exact operand.mentions_of_read h
  | .binary _ left _ right =>
      simp only [Expr.uses, Expr.mentions, List.mem_append] at h ⊢
      exact h.imp left.mentions_of_read right.mentions_of_read
  | .ternary _ condition thenExpr elseExpr =>
      simp only [Expr.uses, Expr.mentions, List.mem_append] at h ⊢
      exact h.imp (Or.imp condition.mentions_of_read thenExpr.mentions_of_read)
        elseExpr.mentions_of_read

theorem Callee.mentions_of_read {callee : Callee} {span : Span} {name : String}
    (h : .read span name ∈ callee.uses) : .name name ∈ callee.mentions := by
  match callee with
  | .named _ | .far .. => cases h
  | .pointer target => exact target.mentions_of_read h

theorem mentions_of_readObject {object : Option Expr} {span : Span} {name : String}
    (h : .read span name ∈ usesOfObject object) : .name name ∈ mentionsOfObject object := by
  match object with
  | none => cases h
  | some e => exact e.mentions_of_read h

theorem mentions_of_readArgs {args : List Expr} {span : Span} {name : String}
    (h : .read span name ∈ usesOfArgs args) : .name name ∈ mentionsOfArgs args := by
  match args with
  | [] => cases h
  | arg :: rest =>
      simp only [usesOfArgs, mentionsOfArgs, List.mem_append] at h ⊢
      exact h.symm.imp arg.mentions_of_read mentions_of_readArgs

end

mutual

/-- Whatever the collection of a loop mentions, the statement does. -/
theorem Stmt.mentions_of_loop {s : Stmt} {l : ArrayLoop} {m : Mention}
    (hl : l ∈ s.arrayLoops) (hm : m ∈ l.collection.mentions) : m ∈ s.mentions := by
  match s with
  | .block _ _ => exact mentions_of_loopBody hl hm
  | .ifElse _ _ thenBranch elseBranch =>
      simp only [Stmt.arrayLoops, List.mem_append] at hl
      simp only [Stmt.mentions, List.mem_append]
      rcases hl with hl | hl
      · exact .inl (.inr (thenBranch.mentions_of_loop hl hm))
      · exact .inr (mentions_of_loopClause hl hm)
  | .whileLoop _ _ body =>
      simp only [Stmt.mentions, List.mem_append]
      exact .inr (body.mentions_of_loop hl hm)
  | .forLoop _ init _ step body =>
      simp only [Stmt.arrayLoops, List.mem_append] at hl
      simp only [Stmt.mentions, List.mem_append]
      rcases hl with (hl | hl) | hl
      · exact .inl (.inl (.inl (mentions_of_loopClause hl hm)))
      · exact .inr (body.mentions_of_loop hl hm)
      · exact .inl (.inr (mentions_of_loopClause hl hm))
  | .foreach _ item collection body =>
      simp only [Stmt.arrayLoops, List.mem_cons] at hl
      simp only [Stmt.mentions, List.mem_append, List.mem_cons]
      rcases hl with rfl | hl
      · exact .inl (.inr hm)
      · exact .inr (body.mentions_of_loop hl hm)
  | .ret .. | .wait .. | .waitFrame _ | .breakLoop _ | .continueLoop _ | .waitTill ..
  | .notify .. | .endOn .. | .assign .. | .incDec .. | .expr .. | .empty _ => cases hl

theorem mentions_of_loopBody {body : List Stmt} {l : ArrayLoop} {m : Mention}
    (hl : l ∈ arrayLoopsOfBody body) (hm : m ∈ l.collection.mentions) :
    m ∈ mentionsOfBody body := by
  match body with
  | [] => cases hl
  | s :: rest =>
      simp only [arrayLoopsOfBody, mentionsOfBody, List.mem_append] at hl ⊢
      exact hl.imp (s.mentions_of_loop · hm) (mentions_of_loopBody · hm)

theorem mentions_of_loopClause {clause : Option Stmt} {l : ArrayLoop} {m : Mention}
    (hl : l ∈ arrayLoopsOfClause clause) (hm : m ∈ l.collection.mentions) :
    m ∈ mentionsOfClause clause := by
  match clause with
  | none => cases hl
  | some s => exact s.mentions_of_loop hl hm

end

theorem Function.mentions_of_loop {f : Function} {l : ArrayLoop} {m : Mention}
    (hl : l ∈ f.arrayLoops) (hm : m ∈ l.collection.mentions) : m ∈ f.mentions :=
  List.mem_append_right _ (mentions_of_loopBody hl hm)

end Gsc
