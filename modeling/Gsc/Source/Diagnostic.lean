import Gsc.Source.Basic

/-! # Diagnostics

A diagnostic is shown with the position it points at and the lines around it.
-/

namespace Gsc

structure Source where
  name : String
  content : List Char
  deriving DecidableEq, Repr

namespace Source

def position (s : Source) (offset : Nat) : Position := Position.ofOffset s.content offset

/-- Lines with their numbers in front, counted from `number` on. -/
def numbered : Nat → List (List Char) → List String
  | _, [] => []
  | number, line :: rest =>
    (Text.decimal 4 number ++ " | " ++ String.ofList line) :: numbered (number + 1) rest

/-- A line and `context` lines on either side of it, with their numbers. -/
def snippet (s : Source) (line context : Nat) : String :=
  let lines := linesOf s.content
  let start := min (line - (context + 1)) lines.length
  let stop := min (line + context) lines.length
  "\n".intercalate (numbered (start + 1) ((lines.take stop).drop start))

end Source

/-- A message about a script, with the place it is about. -/
structure Diagnostic where
  message : String
  span : Option Span
  notes : List String
  deriving DecidableEq, Repr

namespace Diagnostic

def place (source : Source) : Option Span → String
  | none => "  --> " ++ source.name ++ "\n"
  | some span =>
    let p := source.position span.start
    let snippet := source.snippet p.line 1
    "  --> " ++ source.name ++ ":" ++ toString p.line ++ ":" ++ toString p.column ++ "\n"
      ++ (if snippet.isEmpty then "" else snippet ++ "\n")

def headline (d : Diagnostic) : String := "error: " ++ d.message ++ "\n"

def render (source : Source) (d : Diagnostic) : String :=
  d.headline ++ place source d.span
    ++ String.join (d.notes.map fun note => "  = note: " ++ note ++ "\n")

/-- Several messages with an empty line between them. -/
def renderAll (source : Source) (ds : List Diagnostic) : String :=
  "\n".intercalate (ds.map (render source))

def headlines (ds : List Diagnostic) : String := String.join (ds.map headline)

end Diagnostic

end Gsc
