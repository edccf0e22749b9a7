import Gsc.Text.Basic

/-! # Places in a text

A span names a range of byte offsets; `Located` attaches one to a value. Lines and columns count
from one, columns in characters. `Position.ofOffset` counts every character but a line feed as a
column; `Position.ofOffsetCrLf` also takes a carriage return with the line feed behind it as one
line end.
-/

namespace Gsc

/-- A range of byte offsets, `start` included and `stop` excluded. -/
structure Span where
  start : Nat
  stop : Nat
  deriving DecidableEq, Repr, Inhabited

def Span.point (offset : Nat) : Span := ⟨offset, offset⟩

def Span.merge (a b : Span) : Span := ⟨min a.start b.start, max a.stop b.stop⟩

/-- A value with the range it was read from. -/
structure Located (α : Type) where
  value : α
  span : Span
  deriving DecidableEq, Repr

/-! ## Lines and columns -/

/-- A line and a column, both counted from one. -/
structure Position where
  line : Nat
  column : Nat
  deriving DecidableEq, Repr

namespace Position

def first : Position := ⟨1, 1⟩

def newLine (p : Position) : Position := ⟨p.line + 1, 1⟩

def right (p : Position) : Position := ⟨p.line, p.column + 1⟩

def step (p : Position) (c : Char) : Position := if c = '\n' then p.newLine else p.right

/-- Walk over the characters in front of a byte offset, from the one at offset `pos` on. -/
def walk (offset : Nat) : Nat → Position → List Char → Position
  | _, p, [] => p
  | pos, p, c :: rest => if offset ≤ pos then p else walk offset (pos + c.utf8Size) (p.step c) rest

/-- The position of a byte offset; past the end it is the end's. -/
def ofOffset (content : List Char) (offset : Nat) : Position := walk offset 0 first content

/-- The position behind a whole text in which a carriage return and a line feed are one line end. -/
def behindCrLf : Position → List Char → Position
  | p, [] => p
  | p, '\r' :: '\n' :: rest => behindCrLf p.newLine rest
  | p, '\n' :: rest => behindCrLf p.newLine rest
  | p, _ :: rest => behindCrLf p.right rest

/-- The position of a byte offset, with a carriage return and a line feed as one line end. -/
def ofOffsetCrLf (content : List Char) (offset : Nat) : Position :=
  behindCrLf first (Text.charsUntil offset 0 content)

end Position

/-- The lines of a text, without their ends: a line feed, or a carriage return and a line feed. An
empty last line does not count. -/
def linesOf : List Char → List (List Char)
  | [] => []
  | '\n' :: rest => [] :: linesOf rest
  | '\r' :: '\n' :: rest => [] :: linesOf rest
  | c :: rest =>
    match linesOf rest with
    | [] => [[c]]
    | line :: lines => (c :: line) :: lines

end Gsc
