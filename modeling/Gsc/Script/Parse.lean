import Gsc.Script.Reading
import Gsc.Source.Basic

/-! # Parsing a script

`Script.parse` matches the whole text against the grammar and reads the tree. A text that does not
match is reported at the furthest place where a rule was tried in vain.
-/

namespace Gsc

open Gsc.Peg

inductive ParseError where
  | mismatch (detail : String) (position : Position) (span : Span)
  | unreadable (fault : Fault ReadError)
  deriving DecidableEq, Repr

def ReadError.span? : ReadError → Option Span
  | unexpectedRule _ _ span => some span
  | missing _ => none
  | invalidNumber _ span => some span

def ReadError.message : ReadError → String
  | unexpectedRule expected found _ =>
    "unexpected rule: expected " ++ expected ++ ", found " ++ found
  | missing what => "missing required element: " ++ what
  | invalidNumber text _ => "invalid number literal `" ++ text ++ "`"

namespace ParseError

/-- Names in a sentence: `a`, `a or b`, `a, b, or c`. -/
def enumerate : List String → String
  | [] => ""
  | [a] => a
  | [a, b] => a ++ " or " ++ b
  | names => ", ".intercalate names.dropLast ++ ", or " ++ names.getLastD ""

/-- The names of some rules, each once, in the order of the grammar. -/
def ruleNames (rules : List Rule) : List String :=
  (Rule.all.filter (rules.contains ·)).map Rule.name

def detailOf (log : Attempts Rule) : String :=
  match ruleNames log.unexpected, ruleNames log.expected with
  | [], [] => "unknown parsing error"
  | [], expected => "expected " ++ enumerate expected
  | unexpected, [] => "unexpected " ++ enumerate unexpected
  | unexpected, expected =>
    "unexpected " ++ enumerate unexpected ++ "; expected " ++ enumerate expected

/-- The error at the furthest place where a rule was tried in vain. -/
def ofAttempts (input : List Char) (log : Attempts Rule) : ParseError :=
  .mismatch (detailOf log) (Position.ofOffsetCrLf input log.pos) ⟨log.pos, log.pos + 1⟩

def span? : ParseError → Option Span
  | mismatch _ _ span => some span
  | unreadable (.error e) => e.span?
  | unreadable (.panic _) => none

def message : ParseError → String
  | mismatch detail position _ =>
    "syntax error: " ++ detail ++ " at line " ++ toString position.line ++ ", column "
      ++ toString position.column
  | unreadable fault => fault.message ReadError.message

/-- The error as one sentence of a report that shows the place itself. -/
def headline : ParseError → String
  | mismatch detail _ _ => detail
  | error => error.message

end ParseError

namespace Script

def parseChars (input : List Char) : Except ParseError Script :=
  match grammar.run .file input with
  | (.matched trees _, _) => (ofTrees trees).mapError .unreadable
  | (.failed, log) => .error (.ofAttempts input log)
  | (.exhausted, log) => .error (.ofAttempts input log)

def parse (source : String) : Except ParseError Script := parseChars source.toList

end Script

end Gsc
