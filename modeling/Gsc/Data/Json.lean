import Gsc.Text.Basic

/-! # JSON documents and their text -/

namespace Gsc

/-- A JSON value. Numbers other than integers are kept as written. -/
inductive Json where
  | null
  | bool (value : Bool)
  | int (value : Int)
  | decimal (text : String)
  | text (value : String)
  | list (items : List Json)
  | object (fields : List (String × Json))

namespace Json

def quotedChar (c : Char) : List Char :=
  if c = '"' then ['\\', '"']
  else if c = '\\' then ['\\', '\\']
  else if c = '\x08' then ['\\', 'b']
  else if c = '\x0c' then ['\\', 'f']
  else if c = '\n' then ['\\', 'n']
  else if c = '\r' then ['\\', 'r']
  else if c = '\t' then ['\\', 't']
  else if c.toNat < 0x20 then ['\\', 'u'] ++ Text.padLeft 4 '0' (Text.hexDigits c.toNat)
  else [c]

def quote (s : String) : String :=
  String.ofList ('"' :: (s.toList.flatMap quotedChar ++ ['"']))

mutual

def compact : Json → String
  | null => "null"
  | bool true => "true"
  | bool false => "false"
  | int v => toString v
  | decimal t => t
  | text s => quote s
  | list items => "[" ++ ",".intercalate (compactItems items) ++ "]"
  | object fields => "\x7b" ++ ",".intercalate (compactFields fields) ++ "\x7d"

def compactItems : List Json → List String
  | [] => []
  | item :: rest => item.compact :: compactItems rest

def compactFields : List (String × Json) → List String
  | [] => []
  | (key, value) :: rest => (quote key ++ ":" ++ value.compact) :: compactFields rest

end

def newLine (depth : Nat) : String := String.ofList ('\n' :: List.replicate (2 * depth) ' ')

/-- Entries between brackets, each on a line of its own. -/
def bracketed (opening closing : String) (depth : Nat) : List String → String
  | [] => opening ++ closing
  | entries =>
    opening ++ newLine (depth + 1) ++ ("," ++ newLine (depth + 1)).intercalate entries
      ++ newLine depth ++ closing

mutual

/-- The text of a value with every entry on a line of its own, indented by two blanks. -/
def pretty (depth : Nat) : Json → String
  | list items => bracketed "[" "]" depth (prettyItems (depth + 1) items)
  | object fields => bracketed "\x7b" "\x7d" depth (prettyFields (depth + 1) fields)
  | null => "null"
  | bool true => "true"
  | bool false => "false"
  | int v => toString v
  | decimal t => t
  | text s => quote s

def prettyItems (depth : Nat) : List Json → List String
  | [] => []
  | item :: rest => item.pretty depth :: prettyItems depth rest

def prettyFields (depth : Nat) : List (String × Json) → List String
  | [] => []
  | (key, value) :: rest => (quote key ++ ": " ++ value.pretty depth) :: prettyFields depth rest

end

end Json

end Gsc
