import Gsc.Data.Toml.Scalar

/-! # TOML documents -/

namespace Gsc.Toml

/-- Lists and tables in braces are nested less deep than this. -/
def depthLimit : Nat := 80

def braceTable : List (List String × Value) → Entries → Option Entries
  | [], entries => some entries
  | (path, value) :: rest, entries =>
    match Entries.assign path value .braces entries with
    | .ok entries => braceTable rest entries
    | .error _ => none

mutual

/-- A value with so many lists or tables around it. -/
def value : Nat → Nat → Reader Value
  | 0, _, _ => none
  | fuel + 1, depth, cs =>
    match cs with
    | '"' :: _ | '\'' :: _ => (text cs).map fun (s, rest) => (.text s, rest)
    | '[' :: rest =>
      if depth + 1 < depthLimit then
        (items fuel (depth + 1) rest).map fun (vs, rest) => (.list vs, rest)
      else none
    | '\x7b' :: rest =>
      if depth + 1 < depthLimit then do
        let (ps, rest) ← match skipBlank rest with
          | '\x7d' :: rest => some ([], rest)
          | rest => pairs fuel (depth + 1) rest
        let entries ← braceTable ps []
        return (.table .braces entries, rest)
      else none
    | 't' :: 'r' :: 'u' :: 'e' :: rest => some (.bool true, rest)
    | 'f' :: 'a' :: 'l' :: 's' :: 'e' :: rest => some (.bool false, rest)
    | _ =>
      match moment cs with
      | some found => some found
      | none => number cs

def items : Nat → Nat → Reader (List Value)
  | 0, _, _ => none
  | fuel + 1, depth, cs =>
    match skipLines (cs.length + 1) cs with
    | ']' :: rest => some ([], rest)
    | cs => do
      let (v, rest) ← value fuel depth cs
      match skipLines (rest.length + 1) rest with
      | ',' :: rest => do
        let (vs, rest) ← items fuel depth rest
        return (v :: vs, rest)
      | ']' :: rest => return ([v], rest)
      | _ => none

/-- The rest of a table in braces, which holds at least one pair. -/
def pairs : Nat → Nat → Reader (List (List String × Value))
  | 0, _, _ => none
  | fuel + 1, depth, cs => do
    let (pair, rest) ← keyValue fuel depth cs
    match skipBlank rest with
    | ',' :: rest => do
      let (ps, rest) ← pairs fuel depth (skipBlank rest)
      return (pair :: ps, rest)
    | '\x7d' :: rest => return ([pair], rest)
    | _ => none

def keyValue : Nat → Nat → Reader (List String × Value)
  | 0, _, _ => none
  | fuel + 1, depth, cs => do
    let (path, rest) ← key (cs.length + 1) cs
    match rest with
    | '=' :: rest => do
      if depthLimit ≤ path.length then none
      let (v, rest) ← value fuel depth (skipBlank rest)
      return ((path, v), rest)
    | _ => none

end

def header (close : List Char) : Reader (List String) := fun cs => do
  let (path, rest) ← key (cs.length + 1) (skipBlank cs)
  if close.isPrefixOf rest ∧ path.length < depthLimit then return (path, rest.drop close.length)
  else none

/-- What stands behind the rest of a line that has only blanks and a comment left. -/
def endLine (cs : List Char) : Option (List Char) :=
  match skipComment (skipBlank cs) with
  | [] => some []
  | cs => newline? cs

/-- A document so far: the whole tree, and the path of the table that is open. -/
structure Draft where
  root : Entries
  path : List String

/-- Read a line or, where a value goes on, several. `none` is for text that is no TOML. -/
def Draft.statement (d : Draft) (cs : List Char) : Option (Except Error Draft × List Char) :=
  match skipBlank cs with
  | '[' :: '[' :: rest => do
    let (path, rest) ← header [']', ']'] rest
    return ((Entries.openItem path d.root).map (⟨·, path⟩), ← endLine rest)
  | '[' :: rest => do
    let (path, rest) ← header [']'] rest
    return ((Entries.openTable path d.root).map (⟨·, path⟩), ← endLine rest)
  | rest =>
    match endLine rest with
    | some rest => some (.ok d, rest)
    | none => do
      let ((path, v), rest) ← keyValue (rest.length + 1) 0 rest
      let root := Entries.descend false (Entries.assign path v) d.path .header d.root
      return (root.map (⟨·, d.path⟩), ← endLine rest)

/-- Read statements up to the end of the text, which has `lines` lines. -/
def Draft.read (lines : Nat) : Nat → Draft → List Char → Except Error Entries
  | 0, d, _ => .ok d.root
  | _ + 1, d, [] => .ok d.root
  | fuel + 1, d, cs =>
    match d.statement cs with
    | none => .error (.unreadable (lines - cs.count '\n'))
    | some (.error e, _) => .error e
    | some (.ok d, rest) => Draft.read lines fuel d rest

/-- The document that a text holds. A byte order mark in front does not count. -/
def parse (text : String) : Except Error Entries :=
  let cs := match text.toList with
    | '\ufeff' :: rest => rest
    | cs => cs
  Draft.read (cs.count '\n' + 1) (cs.length + 1) ⟨[], []⟩ cs

/-! ## Values of a given type -/

def Value.asText (key : String) : Value → Except Error String
  | text s => .ok s
  | _ => .error (.mistyped key "a string")

def Value.asNat (key : String) (limit : Nat) : Value → Except Error Nat
  | int n =>
    if 0 ≤ n ∧ n < limit then .ok n.toNat
    else .error (.mistyped key ("an integer below " ++ toString limit))
  | _ => .error (.mistyped key "an integer")

def Value.asList (key : String) (item : Value → Except Error α) : Value → Except Error (List α)
  | list items => items.mapM item
  | _ => .error (.mistyped key "a list")

/-- The key under which a point in time stands where a table is expected. -/
def momentKey : String := "$__toml_private_datetime"

/-- The entries of a table in the order of their keys. A point in time counts as a table with one
text. -/
def Value.asMap (key : String) (item : String → Value → Except Error α) :
    Value → Except Error (List (String × α))
  | table _ entries =>
    (entries.mergeSort fun a b => decide (a.1 ≤ b.1)).mapM fun (k, v) =>
      (item k v).map (k, ·)
  | moment form => (item momentKey (.text form)).map fun v => [(momentKey, v)]
  | _ => .error (.mistyped key "a table")

/-- The value of a key, or a default if the key is missing. -/
def Entries.read (entries : Entries) (key : String) (missing : Except Error α)
    (item : Value → Except Error α) : Except Error α :=
  match entries.lookup key with
  | some v => item v
  | none => missing

end Gsc.Toml
