import Gsc.Source.Basic

/-! # Patterns, grammars and parse trees

A grammar gives every rule a kind and a pattern. Patterns are parsing expressions: ordered choice,
greedy repetition and negative lookahead over literal texts, character classes and rules.
-/

namespace Gsc.Peg

/-- A place in the input: the byte offset and the characters from there on. -/
structure Cursor where
  pos : Nat
  rest : List Char
  deriving DecidableEq, Repr

namespace Cursor

def atStart (input : List Char) : Cursor := ⟨0, input⟩

def next? : Cursor → Option (Char × Cursor)
  | ⟨_, []⟩ => none
  | ⟨pos, c :: rest⟩ => some (c, ⟨pos + c.utf8Size, rest⟩)

/-- The place behind a literal text, if it stands here. -/
def strip? : Cursor → List Char → Option Cursor
  | cursor, [] => some cursor
  | ⟨_, []⟩, _ :: _ => none
  | ⟨pos, c :: rest⟩, t :: ts => if c = t then strip? ⟨pos + c.utf8Size, rest⟩ ts else none

/-- The text from this place up to a byte offset. -/
def textUntil (cursor : Cursor) (stop : Nat) : List Char :=
  Text.charsUntil stop cursor.pos cursor.rest

end Cursor

inductive CharClass where
  | any
  | letter
  | digit
  | alphanumeric
  deriving DecidableEq, Repr

/-- Letters and digits are the ASCII ones. -/
def CharClass.holds : CharClass → Char → Bool
  | any, _ => true
  | letter, c => c.isAlpha
  | digit, c => c.isDigit
  | alphanumeric, c => c.isAlphanum

/-- A parsing expression over the rules `R`. -/
inductive Pattern (R : Type) where
  | text (chars : List Char)
  | one (chars : CharClass)
  | ending
  | rule (r : R)
  | seq (first second : Pattern R)
  | alt (first second : Pattern R)
  | opt (body : Pattern R)
  | star (body : Pattern R)
  | notAhead (body : Pattern R)
  | blank
  deriving Repr

namespace Pattern

variable {R : Type}

def lit (s : String) : Pattern R := .text s.toList

def plus (p : Pattern R) : Pattern R := .seq p (.star p)

def choice : Pattern R → List (Pattern R) → Pattern R
  | p, [] => p
  | p, q :: rest => .alt p (choice q rest)

def sequence : Pattern R → List (Pattern R) → Pattern R
  | p, [] => p
  | p, q :: rest => .seq p (sequence q rest)

end Pattern

/-- Whether blanks may stand between the parts of a pattern, and whether inner rules are
recorded. -/
inductive Spacing where
  | free
  | compound
  | atomic
  deriving DecidableEq, Repr

/-- How many negations surround a pattern: none, an even or an odd number. -/
inductive Sense where
  | plain
  | positive
  | negative
  deriving DecidableEq, Repr

/-- The sense inside a negation. -/
def Sense.negate : Sense → Sense
  | plain => negative
  | positive => negative
  | negative => positive

/-- The setting in which a pattern is matched. -/
structure Mode where
  spacing : Spacing
  sense : Sense
  deriving DecidableEq, Repr

def Mode.initial : Mode := ⟨.free, .plain⟩

/-- How a rule treats blanks. -/
inductive Kind where
  | normal
  | atomic
  | compound
  deriving DecidableEq, Repr

def Kind.ruleMode : Kind → Mode → Mode
  | compound, mode => { mode with spacing := .compound }
  | _, mode => mode

def Kind.bodyMode : Kind → Mode → Mode
  | normal, mode => mode
  | atomic, mode => { mode with spacing := .atomic }
  | compound, mode => { mode with spacing := .compound }

/-- Rules with their kinds and patterns, and what may stand between the parts of a pattern. -/
structure Grammar (R : Type) where
  kind : R → Kind
  body : R → Pattern R
  blank : Pattern R

/-- A matched rule: where it began, where it ended, and the rules recorded inside it. -/
inductive ParseTree (R : Type) where
  | node (rule : R) (start : Cursor) (stop : Nat) (children : List (ParseTree R))
  deriving Repr

namespace ParseTree

variable {R : Type}

def rule : ParseTree R → R
  | node r _ _ _ => r

def span : ParseTree R → Span
  | node _ start stop _ => ⟨start.pos, stop⟩

def text : ParseTree R → List Char
  | node _ start stop _ => start.textUntil stop

def children : ParseTree R → List (ParseTree R)
  | node _ _ _ children => children

mutual

/-- The rule and the range of a tree and of all trees under it, for messages. -/
def describe (name : R → String) : ParseTree R → String
  | node r start stop children =>
    let place := name r ++ "(" ++ toString start.pos ++ ", " ++ toString stop
    match describeAll name children with
    | [] => place ++ ")"
    | inner => place ++ ", [" ++ ", ".intercalate inner ++ "])"

def describeAll (name : R → String) : List (ParseTree R) → List String
  | [] => []
  | t :: rest => t.describe name :: describeAll name rest

end

mutual

def height : ParseTree R → Nat
  | node _ _ _ children => heights children + 1

def heights : List (ParseTree R) → Nat
  | [] => 0
  | t :: rest => max t.height (heights rest)

end

theorem height_le_heights {t : ParseTree R} {trees : List (ParseTree R)} (h : t ∈ trees) :
    t.height ≤ heights trees := by
  induction trees with
  | nil => cases h
  | cons u trees ih =>
      rw [heights]
      rcases List.mem_cons.1 h with rfl | h
      · exact Nat.le_max_left _ _
      · exact Nat.le_trans (ih h) (Nat.le_max_right _ _)

theorem height_lt_of_mem {t u : ParseTree R} (h : u ∈ t.children) : u.height < t.height := by
  obtain ⟨r, start, stop, children⟩ := t
  rw [height]
  exact Nat.lt_succ_of_le (height_le_heights h)

end ParseTree

end Gsc.Peg
