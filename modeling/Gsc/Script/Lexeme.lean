import Gsc.Script.Basic
import Gsc.Script.Rule
import Gsc.Text.Basic

/-! # The values of tokens

What the text of a name, a path, a number or a string stands for.
-/

namespace Gsc.Lexeme

/-- Inside quotes a backslash stands before a character to be taken as it is, or before the letter
of a line feed, a tab or a carriage return. -/
def unescape : List Char → List Char
  | [] => []
  | ['\\'] => ['\\']
  | '\\' :: 'n' :: rest => '\n' :: unescape rest
  | '\\' :: 't' :: rest => '\t' :: unescape rest
  | '\\' :: 'r' :: rest => '\r' :: unescape rest
  | '\\' :: c :: rest => c :: unescape rest
  | c :: rest => c :: unescape rest

/-- The text between the quotes, if both are there. -/
def unwrap? : List Char → Option (List Char)
  | '"' :: rest => if rest.getLast? = some '"' then some rest.dropLast else none
  | _ => none

def unquote (chars : List Char) : String :=
  String.ofList (unescape ((unwrap? chars).getD chars))

/-- Paths are kept in lowercase, with `/` between their segments. -/
def normalizePath (chars : List Char) : String :=
  String.ofList (Text.lowercase (chars.map fun c => if c = '\\' then '/' else c))

/-- A number with a point is a float; any other must fit in 64 bits. -/
def number? (chars : List Char) (span : Span) : Option Expr :=
  if '.' ∈ chars then
    some (.float span
      (Binary32.ofDecimal (chars.takeWhile (· ≠ '.')) ((chars.dropWhile (· ≠ '.')).drop 1)))
  else
    let value := Binary32.digitsValue chars
    if value ≤ 9223372036854775807 then some (.int span (Int64.ofNat value)) else none

def ofLiteral (span : Span) : Literal → Expr
  | .undefined => .undefined span
  | .yes => .bool span true
  | .no => .bool span false
  | .level => .level span
  | .self => .self span
  | .game => .game span
  | .anim => .anim span

/-- Names are kept in lowercase. -/
def lowercase (chars : List Char) : String := String.ofList (Text.lowercase chars)

end Gsc.Lexeme
