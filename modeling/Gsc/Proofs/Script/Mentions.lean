import Gsc.Script.Basic

/-! # What a script mentions

The string literals, names and paths of a script, in the order in which they stand in it.
-/

namespace Gsc

/-- A string literal, plain or localized, a name, or a path. -/
inductive Mention where
  | literal (value : String)
  | name (value : String)
  | path (value : String)
  deriving DecidableEq, Repr

@[simp] def Mention.value : Mention → String
  | literal v | name v | path v => v

mutual

def Expr.mentions : Expr → List Mention
  | .text _ value => [.literal value]
  | .localized _ key => [.literal key]
  | .int .. | .float .. | .undefined _ | .bool .. | .level _ | .self _ | .game _ | .anim _
  | .emptyArray _ => []
  | .vector _ x y z => x.mentions ++ y.mentions ++ z.mentions
  | .ident _ name => [.name name]
  | .functionRef _ none name => [.name name]
  | .functionRef _ (some path) name => [.path path, .name name]
  | .field _ base name => base.mentions ++ [.name name]
  | .index _ base i => base.mentions ++ i.mentions
  | .call _ object _ callee args =>
    mentionsOfObject object ++ callee.mentions ++ mentionsOfArgs args
  | .unary _ _ operand => operand.mentions
  | .binary _ left _ right => left.mentions ++ right.mentions
  | .ternary _ condition thenExpr elseExpr =>
    condition.mentions ++ thenExpr.mentions ++ elseExpr.mentions

def Callee.mentions : Callee → List Mention
  | .named name => [.name name]
  | .far path name => [.path path, .name name]
  | .pointer target => target.mentions

def mentionsOfObject : Option Expr → List Mention
  | none => []
  | some object => object.mentions

def mentionsOfArgs : List Expr → List Mention
  | [] => []
  | arg :: rest => arg.mentions ++ mentionsOfArgs rest

end

def mentionsOfNames (names : List (Located String)) : List Mention :=
  names.map fun n => .name n.value

mutual

def Stmt.mentions : Stmt → List Mention
  | .block _ body => mentionsOfBody body
  | .ifElse _ condition thenBranch elseBranch =>
    condition.mentions ++ thenBranch.mentions ++ mentionsOfClause elseBranch
  | .whileLoop _ condition body => condition.mentions ++ body.mentions
  | .forLoop _ init condition step body =>
    mentionsOfClause init ++ mentionsOfObject condition ++ mentionsOfClause step ++ body.mentions
  | .foreach _ item collection body =>
    .name item.value :: collection.mentions ++ body.mentions
  | .ret _ value => mentionsOfObject value
  | .wait _ duration => duration.mentions
  | .waitFrame _ | .breakLoop _ | .continueLoop _ | .empty _ => []
  | .waitTill _ object event targets =>
    object.mentions ++ event.mentions ++ mentionsOfNames targets
  | .notify _ object event args => object.mentions ++ event.mentions ++ mentionsOfArgs args
  | .endOn _ object event => object.mentions ++ event.mentions
  | .assign _ target _ value => target.mentions ++ value.mentions
  | .incDec _ target _ => target.mentions
  | .expr _ value => value.mentions

def mentionsOfBody : List Stmt → List Mention
  | [] => []
  | s :: rest => s.mentions ++ mentionsOfBody rest

def mentionsOfClause : Option Stmt → List Mention
  | none => []
  | some s => s.mentions

end

def Function.mentions (f : Function) : List Mention :=
  .name f.name :: mentionsOfNames f.params ++ mentionsOfBody f.body

def Script.mentions (s : Script) : List Mention :=
  s.includes.map (fun p => .path p.value) ++ s.animtree.toList.map (fun n => .literal n.value)
    ++ s.functions.flatMap Function.mentions

/-! ## Spelling -/

def isNameStart (c : Char) : Bool := c.isLower || c == '_'

def isNameChar (c : Char) : Bool := c.isLower || c.isDigit || c == '_'

/-- Small letters, digits and underscores, of which the first is no digit. -/
def isName : List Char → Bool
  | [] => false
  | c :: rest => isNameStart c && rest.all isNameChar

def isSegment (chars : List Char) : Bool := !chars.isEmpty && chars.all isNameChar

def IsPath (chars : List Char) : Prop :=
  ∃ first rest, (∀ segment ∈ first :: rest, isSegment segment = true) ∧
    chars = ['/'].intercalate (first :: rest)

theorem intercalate_slash (first : List Char) (rest : List (List Char)) :
    ['/'].intercalate (first :: rest) = first ++ (rest.map ('/' :: ·)).flatten := by
  induction rest generalizing first with
  | nil => simp [List.intercalate]
  | cons next rest ih =>
      have hstep : ['/'].intercalate (first :: next :: rest)
          = first ++ '/' :: ['/'].intercalate (next :: rest) := by
        simp [List.intercalate]
      simp [hstep, ih]

theorem isNameChar_of_isNameStart {c : Char} (h : isNameStart c = true) : isNameChar c = true := by
  simp only [isNameStart, Bool.or_eq_true] at h
  simp only [isNameChar, Bool.or_eq_true]
  exact h.imp_left .inl

theorem isNameChar_of_isName {chars : List Char} (h : isName chars = true) :
    ∀ c ∈ chars, isNameChar c = true := by
  cases chars with
  | nil => simp
  | cons first rest =>
      rw [isName, Bool.and_eq_true, List.all_eq_true] at h
      exact List.forall_mem_cons.2 ⟨isNameChar_of_isNameStart h.1, h.2⟩

theorem isNameChar_of_isSegment {chars : List Char} (h : isSegment chars = true) :
    ∀ c ∈ chars, isNameChar c = true := by
  rw [isSegment, Bool.and_eq_true, List.all_eq_true] at h
  exact h.2

theorem IsPath.char {chars : List Char} (h : IsPath chars) :
    ∀ c ∈ chars, isNameChar c = true ∨ c = '/' := by
  obtain ⟨first, rest, hsegments, rfl⟩ := h
  intro c hc
  rw [intercalate_slash] at hc
  rcases List.mem_append.1 hc with hc | hc
  · exact .inl (isNameChar_of_isSegment (hsegments first List.mem_cons_self) c hc)
  · obtain ⟨piece, hpiece, hc⟩ := List.mem_flatten.1 hc
    obtain ⟨segment, hsegment, rfl⟩ := List.mem_map.1 hpiece
    rcases List.mem_cons.1 hc with rfl | hc
    · exact .inr rfl
    · have hs := hsegments segment (List.mem_cons_of_mem first hsegment)
      exact .inl (isNameChar_of_isSegment hs c hc)

/-- Names and paths are in lowercase; string literals may hold anything. -/
def Mention.Spelled : Mention → Prop
  | .literal _ => True
  | .name s => isName s.toList = true
  | .path s => IsPath s.toList

end Gsc
