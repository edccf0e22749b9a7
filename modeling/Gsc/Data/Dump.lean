import Gsc.Data.Json
import Gsc.Number.Shortest
import Gsc.Text.Unprintable

/-! # Dumps

A `Dump` is the outline of a value: records, variants, lists and plain values. It is written as a
listing, in one line or indented, or turned into JSON.
-/

namespace Gsc

/-! ## Quoted text

A text between double quotes, with quotes, backslashes, line ends, tabs, zeros and characters
without a visible form escaped.
-/

namespace Text

def quotedChar (c : Char) : List Char :=
  if c = '"' then ['\\', '"']
  else if c = '\\' then ['\\', '\\']
  else if c = '\n' then ['\\', 'n']
  else if c = '\r' then ['\\', 'r']
  else if c = '\t' then ['\\', 't']
  else if c = '\x00' then ['\\', '0']
  else if isUnprintable c then ['\\', 'u', '\x7b'] ++ hexDigits c.toNat ++ ['\x7d']
  else [c]

def quote (s : String) : String :=
  String.ofList ('"' :: (s.toList.flatMap quotedChar ++ ['"']))

end Text

/-! ## Outlines -/

/-- The outline of a value. -/
inductive Dump where
  | int (value : Int)
  | float (value : Binary32)
  | bool (value : Bool)
  | text (value : String)
  | list (items : List Dump)
  | absent
  | present (value : Dump)
  | record (name : String) (fields : List (String × Dump))
  | variant (name : String) (args : List Dump)
  | variantRecord (name : String) (fields : List (String × Dump))

namespace Dump

def boolText (b : Bool) : String := if b then "true" else "false"

def inBraces : List String → String
  | [] => ""
  | entries => " \x7b " ++ ", ".intercalate entries ++ " \x7d"

def inParens : List String → String
  | [] => ""
  | entries => "(" ++ ", ".intercalate entries ++ ")"

mutual

def oneLine : Dump → String
  | int v => toString v
  | float x => DecimalLayout.listing.render x
  | bool b => boolText b
  | text s => Text.quote s
  | list items => "[" ++ ", ".intercalate (oneLineItems items) ++ "]"
  | absent => "None"
  | present v => "Some(" ++ v.oneLine ++ ")"
  | record name fields => name ++ inBraces (oneLineFields fields)
  | variant name args => name ++ inParens (oneLineItems args)
  | variantRecord name fields => name ++ inBraces (oneLineFields fields)

def oneLineItems : List Dump → List String
  | [] => []
  | item :: rest => item.oneLine :: oneLineItems rest

def oneLineFields : List (String × Dump) → List String
  | [] => []
  | (key, value) :: rest => (key ++ ": " ++ value.oneLine) :: oneLineFields rest

end

def indent (depth : Nat) : String := String.ofList (List.replicate (4 * depth) ' ')

/-- Entries on lines of their own, each with a comma behind it. -/
def stacked (opening closing : String) (depth : Nat) (entries : List String) : String :=
  opening ++ "\n"
    ++ String.join (entries.map fun entry => indent (depth + 1) ++ entry ++ ",\n")
    ++ indent depth ++ closing

/-- A name with entries behind it, if there are any. -/
def stackedAfter (name opening closing : String) (depth : Nat) : List String → String
  | [] => name
  | entries => stacked (name ++ opening) closing depth entries

mutual

def indented (depth : Nat) : Dump → String
  | list [] => "[]"
  | list items => stacked "[" "]" depth (indentedItems (depth + 1) items)
  | present v => stacked "Some(" ")" depth [v.indented (depth + 1)]
  | record name fields =>
    stackedAfter name " \x7b" "\x7d" depth (indentedFields (depth + 1) fields)
  | variant name args => stackedAfter name "(" ")" depth (indentedItems (depth + 1) args)
  | variantRecord name fields =>
    stackedAfter name " \x7b" "\x7d" depth (indentedFields (depth + 1) fields)
  | int v => toString v
  | float x => DecimalLayout.listing.render x
  | bool b => boolText b
  | text s => Text.quote s
  | absent => "None"

def indentedItems (depth : Nat) : List Dump → List String
  | [] => []
  | item :: rest => item.indented depth :: indentedItems depth rest

def indentedFields (depth : Nat) : List (String × Dump) → List String
  | [] => []
  | (key, value) :: rest => (key ++ ": " ++ value.indented depth) :: indentedFields depth rest

end

/-- The arguments of a variant in JSON: a single one stands for itself. -/
def argsJson (name : String) : List Json → Json
  | [] => .text name
  | [arg] => .object [(name, arg)]
  | args => .object [(name, .list args)]

mutual

/-- A value as JSON, given how numbers with a fraction are written. A variant is its name, or an
object with its name as the only key. -/
def toJson (number : Binary32 → Json) : Dump → Json
  | int v => .int v
  | float x => number x
  | bool b => .bool b
  | text s => .text s
  | list items => .list (itemsJson number items)
  | absent => .null
  | present v => v.toJson number
  | record _ fields => .object (fieldsJson number fields)
  | variant name args => argsJson name (itemsJson number args)
  | variantRecord name fields => .object [(name, .object (fieldsJson number fields))]

def itemsJson (number : Binary32 → Json) : List Dump → List Json
  | [] => []
  | item :: rest => item.toJson number :: itemsJson number rest

def fieldsJson (number : Binary32 → Json) : List (String × Dump) → List (String × Json)
  | [] => []
  | (key, value) :: rest => (key, value.toJson number) :: fieldsJson number rest

end

end Dump

/-- JSON writes a number with a point from `1e-6` up to below `1e13`. -/
def DecimalLayout.json : DecimalLayout := ⟨-6, 12, "+", .even, "null", "null", "null"⟩

def Json.ofBinary32 (x : Binary32) : Json := .decimal (DecimalLayout.json.render x)

end Gsc
