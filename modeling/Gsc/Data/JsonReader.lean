import Gsc.Data.Json

/-! # Reading JSON -/

namespace Gsc.Json

/-- Reads something from the front of a text. -/
abbrev Reader (α : Type) := List Char → Option (α × List Char)

def isSpace (c : Char) : Bool := c = ' ' || c = '\n' || c = '\t' || c = '\r'

def skipSpace (cs : List Char) : List Char := cs.dropWhile isSpace

def unit : Reader Nat := fun cs =>
  if (cs.take 4).length = 4 then (Text.hexValue? (cs.take 4)).map (·, cs.drop 4) else none

def isHigh (n : Nat) : Bool := 0xd800 ≤ n && n < 0xdc00

def isLow (n : Nat) : Bool := 0xdc00 ≤ n && n < 0xe000

def lowEscape (cs : List Char) : Option (Nat × List Char) :=
  match cs with
  | '\\' :: 'u' :: rest => (unit rest).filter fun (low, _) => isLow low
  | _ => none

/-- The character of an escape by code unit. One beyond the first 65536 takes two of them, and one
half alone gives none. -/
def unitEscape (cs : List Char) : Option (Option Char × List Char) := do
  let (high, rest) ← unit cs
  if isHigh high then
    match lowEscape rest with
    | some (low, rest) =>
      return (some (Char.ofNat (0x10000 + 0x400 * (high - 0xd800) + (low - 0xdc00))), rest)
    | none => return (none, rest)
  else if isLow high then return (none, rest)
  else return (some (Char.ofNat high), rest)

def escape : Reader (Option Char)
  | '"' :: rest => some ('"', rest)
  | '\\' :: rest => some ('\\', rest)
  | '/' :: rest => some ('/', rest)
  | 'b' :: rest => some ('\x08', rest)
  | 'f' :: rest => some ('\x0c', rest)
  | 'n' :: rest => some ('\n', rest)
  | 'r' :: rest => some ('\r', rest)
  | 't' :: rest => some ('\t', rest)
  | 'u' :: rest => unitEscape rest
  | _ => none

def stringBody : Nat → Reader (List (Option Char))
  | 0, _ => none
  | _ + 1, [] => none
  | _ + 1, '"' :: rest => some ([], rest)
  | fuel + 1, '\\' :: rest => do
    let (c, rest) ← escape rest
    let (s, rest) ← stringBody fuel rest
    return (c :: s, rest)
  | fuel + 1, c :: rest =>
    if 0x20 ≤ c.toNat then (stringBody fuel rest).map fun (s, rest) => (some c :: s, rest) else none

/-- The text of a string. One with half a pair of code units has none. -/
def string (cs : List Char) : Option (Option String × List Char) :=
  match cs with
  | '"' :: rest =>
    (stringBody (rest.length + 1) rest).map fun (s, rest) => ((s.mapM id).map String.ofList, rest)
  | _ => none

def someDigits (cs : List Char) : Option (List Char × List Char) :=
  match cs.takeWhile Char.isDigit with
  | [] => none
  | run => some (run, cs.drop run.length)

def skipExponent (cs : List Char) : Option (List Char) :=
  match cs with
  | 'e' :: rest | 'E' :: rest =>
    match rest with
    | '+' :: rest | '-' :: rest => (someDigits rest).map (·.2)
    | _ => (someDigits rest).map (·.2)
  | _ => some cs

def skipFraction (cs : List Char) : Option (List Char) :=
  match cs with
  | '.' :: rest => do
    let (_, rest) ← someDigits rest
    skipExponent rest
  | _ => skipExponent cs

def digitsValue (run : List Char) : Nat :=
  run.foldl (fun value c => 10 * value + (c.toNat - '0'.toNat)) 0

/-- A number without its sign. Zeros in front of other digits are refused. -/
def number (negative : Bool) (cs : List Char) : Option (Json × List Char) := do
  let (run, rest) ← someDigits cs
  if run.head? = some '0' ∧ 1 < run.length then none
  let stop ← skipFraction rest
  let value := digitsValue run
  if stop.length < rest.length ∨ (negative ∧ value = 0) then
    let text := String.ofList (cs.take (cs.length - stop.length))
    return (.decimal (if negative then "-" ++ text else text), stop)
  else return (.int (if negative then -value else value), rest)

/-- A string as a value. Without a text it is as good as nothing. -/
def ofString : Option String → Json
  | some s => .text s
  | none => .null

/-- Fields as a value. With a key that has no text they are as good as nothing. -/
def ofFields (fs : List (Option String × Json)) : Json :=
  match fs.mapM fun (key, v) => key.map (·, v) with
  | some fs => .object fs
  | none => .null

mutual

def value : Nat → Reader Json
  | 0, _ => none
  | fuel + 1, cs =>
    match skipSpace cs with
    | 'n' :: 'u' :: 'l' :: 'l' :: rest => some (.null, rest)
    | 't' :: 'r' :: 'u' :: 'e' :: rest => some (.bool true, rest)
    | 'f' :: 'a' :: 'l' :: 's' :: 'e' :: rest => some (.bool false, rest)
    | '[' :: rest =>
      match skipSpace rest with
      | ']' :: rest => some (.list [], rest)
      | rest => (values fuel rest).map fun (vs, rest) => (.list vs, rest)
    | '\x7b' :: rest =>
      match skipSpace rest with
      | '\x7d' :: rest => some (.object [], rest)
      | rest => (fields fuel rest).map fun (fs, rest) => (ofFields fs, rest)
    | '-' :: rest => number true rest
    | cs =>
      match string cs with
      | some (s, rest) => some (ofString s, rest)
      | none => number false cs

def values : Nat → Reader (List Json)
  | 0, _ => none
  | fuel + 1, cs => do
    let (v, rest) ← value fuel cs
    match skipSpace rest with
    | ',' :: rest => do
      let (vs, rest) ← values fuel rest
      return (v :: vs, rest)
    | ']' :: rest => return ([v], rest)
    | _ => none

def fields : Nat → Reader (List (Option String × Json))
  | 0, _ => none
  | fuel + 1, cs => do
    let (key, rest) ← string (skipSpace cs)
    match skipSpace rest with
    | ':' :: rest => do
      let (v, rest) ← value fuel rest
      match skipSpace rest with
      | ',' :: rest => do
        let (fs, rest) ← fields fuel rest
        return ((key, v) :: fs, rest)
      | '\x7d' :: rest => return ([(key, v)], rest)
      | _ => none
    | _ => none

end

def parse? (text : String) : Option Json :=
  let cs := text.toList
  match value (2 * cs.length + 2) cs with
  | some (v, rest) => if (skipSpace rest).isEmpty then some v else none
  | none => none

/-! ## Records -/

def asNat? (limit : Nat) : Json → Option Nat
  | int n => if 0 ≤ n ∧ n < limit then some n.toNat else none
  | _ => none

def asText? : Json → Option String
  | text s => some s
  | _ => none

/-- The value of a field. A key that stands twice is refused. -/
def field? (fs : List (String × Json)) (key : String) : Option (Option Json) :=
  match fs.filter (·.1 = key) with
  | [] => some none
  | [(_, v)] => some (some v)
  | _ => none

/-- The fields of a record, given by name or in their order. -/
def asRecord? (keys : List String) : Json → Option (List (Option Json))
  | object fs => keys.mapM (field? fs)
  | list vs =>
    if vs.length ≤ keys.length then
      some (vs.map some ++ List.replicate (keys.length - vs.length) none)
    else none
  | _ => none

end Gsc.Json
