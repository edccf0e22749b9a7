import Gsc.Data.Toml.Basic
import Gsc.Text.Basic

/-! # TOML strings, numbers and keys

Readers take what they read from the front of the text and leave the rest.
-/

namespace Gsc.Toml

/-- Reads something from the front of a text. -/
abbrev Reader (α : Type) := List Char → Option (α × List Char)

def isBlank (c : Char) : Bool := c = ' ' || c = '\t'

/-- Whether a character may stand in a comment or a string: a tab or anything but a control. -/
def isPlain (c : Char) : Bool := c = '\t' || (0x20 ≤ c.toNat && c.toNat ≠ 0x7f)

def skipBlank (cs : List Char) : List Char := cs.dropWhile isBlank

def newline? : List Char → Option (List Char)
  | '\n' :: rest => some rest
  | '\r' :: '\n' :: rest => some rest
  | _ => none

def skipBreaks : List Char → List Char
  | '\r' :: '\n' :: rest => skipBreaks rest
  | c :: rest => if isBlank c || c = '\n' then skipBreaks rest else c :: rest
  | [] => []

def skipComment : List Char → List Char
  | '#' :: rest => rest.dropWhile isPlain
  | cs => cs

/-- Skip blanks, comments and ends of lines. A comment needs an end of line behind it. -/
def skipLines : Nat → List Char → List Char
  | 0, cs => cs
  | fuel + 1, cs =>
    let cs := skipBlank cs
    match newline? (skipComment cs) with
    | some rest => skipLines fuel rest
    | none => cs

/-! ## Strings -/

def scalar? (digits : List Char) : Option Char :=
  match Text.hexValue? digits with
  | some n => if n.isValidChar then some (Char.ofNat n) else none
  | none => none

def scalar (count : Nat) : Reader Char := fun cs =>
  if count ≤ (cs.take count).length then (scalar? (cs.take count)).map (·, cs.drop count) else none

def escape : Reader Char
  | 'b' :: rest => some ('\x08', rest)
  | 't' :: rest => some ('\t', rest)
  | 'n' :: rest => some ('\n', rest)
  | 'f' :: rest => some ('\x0c', rest)
  | 'r' :: rest => some ('\r', rest)
  | '"' :: rest => some ('"', rest)
  | '\\' :: rest => some ('\\', rest)
  | 'u' :: rest => scalar 4 rest
  | 'U' :: rest => scalar 8 rest
  | _ => none

def basicBody : Nat → Reader (List Char)
  | 0, _ => none
  | _ + 1, [] => none
  | _ + 1, '"' :: rest => some ([], rest)
  | fuel + 1, '\\' :: rest => do
    let (c, rest) ← escape rest
    let (s, rest) ← basicBody fuel rest
    return (c :: s, rest)
  | fuel + 1, c :: rest =>
    if isPlain c then (basicBody fuel rest).map fun (s, rest) => (c :: s, rest) else none

/-- Up to two quotes in front of the three that end a string belong to it. -/
def extraQuotes (quote : Char) : List Char → List Char × List Char
  | a :: b :: rest =>
    if a = quote ∧ b = quote then ([quote, quote], rest)
    else if a = quote then ([quote], b :: rest)
    else ([], a :: b :: rest)
  | [a] => if a = quote then ([quote], []) else ([], [a])
  | [] => ([], [])

/-- The rest of a string over several lines. Only in double quotes does a backslash count: it
starts an escape, or joins a line with the next text. -/
def longBody (quote : Char) : Nat → Reader (List Char)
  | 0, _ => none
  | _ + 1, [] => none
  | fuel + 1, c :: rest =>
    if c = quote ∧ rest.take 2 = [quote, quote] then some (extraQuotes quote (rest.drop 2))
    else if c = '\\' ∧ quote = '"' then
      if (newline? (skipBlank rest)).isSome then longBody quote fuel (skipBreaks rest)
      else do
        let (c, rest) ← escape rest
        let (s, rest) ← longBody quote fuel rest
        return (c :: s, rest)
    else
      match newline? (c :: rest) with
      | some rest => (longBody quote fuel rest).map fun (s, rest) => ('\n' :: s, rest)
      | none =>
        if isPlain c then (longBody quote fuel rest).map fun (s, rest) => (c :: s, rest) else none

def literalBody (cs : List Char) : Option (List Char × List Char) :=
  let inner := cs.takeWhile fun c => isPlain c && c ≠ '\''
  match cs.drop inner.length with
  | '\'' :: rest => some (inner, rest)
  | _ => none

/-- A line end right behind the opening quotes does not count. -/
def skipNewline (cs : List Char) : List Char := (newline? cs).getD cs

def shortText : Reader String
  | '"' :: rest => (basicBody (rest.length + 1) rest).map fun (s, rest) => (String.ofList s, rest)
  | '\'' :: rest => (literalBody rest).map fun (s, rest) => (String.ofList s, rest)
  | _ => none

def text : Reader String
  | '"' :: '"' :: '"' :: rest =>
    (longBody '"' (rest.length + 1) (skipNewline rest)).map fun (s, rest) =>
      (String.ofList s, rest)
  | '\'' :: '\'' :: '\'' :: rest =>
    (longBody '\'' (rest.length + 1) (skipNewline rest)).map fun (s, rest) =>
      (String.ofList s, rest)
  | cs => shortText cs

/-! ## Keys -/

def isBare (c : Char) : Bool := c.isAlphanum || c = '_' || c = '-'

def simpleKey (cs : List Char) : Option (String × List Char) :=
  match cs with
  | '"' :: _ | '\'' :: _ => shortText cs
  | _ =>
    match cs.takeWhile isBare with
    | [] => none
    | word => some (String.ofList word, cs.drop word.length)

/-- A key with points between its parts, and the blanks behind it. -/
def key : Nat → Reader (List String)
  | 0, _ => none
  | fuel + 1, cs => do
    let (first, rest) ← simpleKey cs
    match skipBlank rest with
    | '.' :: rest => do
      let (more, rest) ← key fuel (skipBlank rest)
      return (first :: more, rest)
    | rest => return ([first], rest)

/-! ## Numbers -/

/-- Whether underscores stand only between digits. -/
def isGrouped (isDigit : Char → Bool) : List Char → Bool
  | [] => false
  | [c] => isDigit c
  | c :: '_' :: rest => isDigit c && isGrouped isDigit rest
  | c :: rest => isDigit c && isGrouped isDigit rest

def digits (isDigit : Char → Bool) : Reader (List Char) := fun cs =>
  let run := cs.takeWhile fun c => isDigit c || c = '_'
  if isGrouped isDigit run then some (run, cs.drop run.length) else none

def valueOf (base : Nat) (run : List Char) : Nat :=
  (run.filterMap Text.digitValue?).foldl (fun value d => base * value + d) 0

def isDigitBelow (base : Nat) (c : Char) : Bool :=
  match Text.digitValue? c with
  | some d => d < base
  | none => false

def integer? (n : Int) : Option Value :=
  if -9223372036854775808 ≤ n ∧ n ≤ 9223372036854775807 then some (.int n) else none

def radixNumber (base : Nat) (cs : List Char) : Option (Value × List Char) := do
  let (run, rest) ← digits (isDigitBelow base) cs
  let value ← integer? (valueOf base run)
  return (value, rest)

def sign (cs : List Char) : List Char :=
  match cs with
  | '+' :: rest | '-' :: rest => rest
  | _ => cs

def fraction : Reader (Option (List Char))
  | '.' :: rest => (digits Char.isDigit rest).map fun (run, rest) => (some run, rest)
  | cs => some (none, cs)

def exponent (cs : List Char) : Option (Option Int × List Char) :=
  match cs with
  | 'e' :: rest | 'E' :: rest => do
    let (run, stop) ← digits Char.isDigit (sign rest)
    let size : Int := valueOf 10 run
    return (some (if rest.head? = some '-' then -size else size), stop)
  | _ => some (none, cs)

/-- The least number that rounds to infinity in 64 bits. It has 309 digits. -/
def floatLimit : Nat := Nat.pow 2 1024 - Nat.pow 2 970

/-- Whether the number of some digits, moved by so many decimal places, reaches the limit. -/
def reachesFloatLimit (run : List Char) (places : Int) : Bool :=
  let run := (run.filter Char.isDigit).dropWhile (· = '0')
  let length : Int := run.length + places
  if run.isEmpty || length < 309 then false
  else if 309 < length then true
  else floatLimit * Nat.pow 10 (-places).toNat ≤ valueOf 10 run * Nat.pow 10 places.toNat

def taken (cs rest : List Char) : String := String.ofList (cs.take (cs.length - rest.length))

/-- A decimal number. One without a fraction and an exponent is an integer. A positive one that
would round to infinity is refused. -/
def decimal (cs : List Char) : Option (Value × List Char) :=
  match sign cs with
  | 'i' :: 'n' :: 'f' :: rest => some (.float (taken cs rest), rest)
  | 'n' :: 'a' :: 'n' :: rest => some (.float (taken cs rest), rest)
  | body => do
    let negative := cs.head? = some '-'
    let (run, rest) ← digits Char.isDigit body
    if run.head? = some '0' ∧ 1 < run.length then none
    let (fraction, rest) ← fraction rest
    let (exponent, rest) ← exponent rest
    if fraction.isNone ∧ exponent.isNone then do
      let size : Int := valueOf 10 run
      let value ← integer? (if negative then -size else size)
      return (value, rest)
    else do
      let places := (fraction.getD []).filter Char.isDigit
      if ¬negative ∧ reachesFloatLimit (run ++ places) (exponent.getD 0 - places.length) then none
      return (.float (taken cs rest), rest)

def number : Reader Value
  | '0' :: 'x' :: rest => radixNumber 16 rest
  | '0' :: 'o' :: rest => radixNumber 8 rest
  | '0' :: 'b' :: rest => radixNumber 2 rest
  | cs => decimal cs

/-! ## Dates and times -/

def fixed (count : Nat) : Reader Nat := fun cs =>
  let run := cs.take count
  if run.length = count ∧ run.all Char.isDigit then some (valueOf 10 run, cs.drop count) else none

def oneOf (allowed : List Char) : List Char → Option (List Char)
  | c :: rest => if allowed.contains c then some rest else none
  | [] => none

def daysIn (year month : Nat) : Nat :=
  if month = 2 then
    if year % 4 = 0 ∧ (year % 100 ≠ 0 ∨ year % 400 = 0) then 29 else 28
  else if [4, 6, 9, 11].contains month then 30
  else 31

def date (cs : List Char) : Option (List Char × List Char) := do
  let (year, rest) ← fixed 4 cs
  let (month, rest) ← fixed 2 (← oneOf ['-'] rest)
  let (day, rest) ← fixed 2 (← oneOf ['-'] rest)
  if 1 ≤ month ∧ month ≤ 12 ∧ 1 ≤ day ∧ day ≤ daysIn year month then return (cs.take 10, rest)
  else none

def clock (cs : List Char) : Option (List Char × List Char) := do
  let (hour, rest) ← fixed 2 cs
  let (minute, rest) ← fixed 2 (← oneOf [':'] rest)
  if hour < 24 ∧ minute < 60 then return (cs.take 5, rest) else none

/-- Parts of a second, down to the ninth digit and without zeros at the end. -/
def subsecond (run : List Char) : List Char :=
  match ((run.take 9).reverse.dropWhile (· = '0')).reverse with
  | [] => []
  | kept => '.' :: kept

def time (cs : List Char) : Option (List Char × List Char) := do
  let (_, rest) ← clock cs
  let (second, rest) ← fixed 2 (← oneOf [':'] rest)
  if 60 < second then none
  match rest with
  | '.' :: back =>
    match back.takeWhile Char.isDigit with
    | [] => none
    | run => return (cs.take 8 ++ subsecond run, back.drop run.length)
  | _ => return (cs.take 8, rest)

/-- An offset from universal time, if there is one. No offset is negative zero. -/
def offset (cs : List Char) : List Char × List Char :=
  match cs with
  | 'Z' :: rest | 'z' :: rest => (['Z'], rest)
  | '+' :: rest =>
    match clock rest with
    | some (text, rest) => ('+' :: text, rest)
    | none => ([], cs)
  | '-' :: rest =>
    match clock rest with
    | some (text, rest) => ((if text = "00:00".toList then '+' else '-') :: text, rest)
    | none => ([], cs)
  | _ => ([], cs)

def moment (cs : List Char) : Option (Value × List Char) :=
  match date cs with
  | none => (time cs).map fun (text, rest) => (.moment (String.ofList text), rest)
  | some (day, rest) =>
    match (oneOf ['T', 't', ' '] rest).bind time with
    | none => some (.moment (String.ofList day), rest)
    | some (text, rest) =>
      let (zone, rest) := offset rest
      some (.moment (String.ofList (day ++ 'T' :: text ++ zone)), rest)

end Gsc.Toml
