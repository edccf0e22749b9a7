import Gsc.Data.Bytes
import Gsc.Files.Path

/-! # Trees of files -/

namespace Gsc

inductive FileError where
  | notFound
  | notADirectory
  | isADirectory
  | nameTooLong
  | nulInName
  | notUtf8
  | other (message : String)
  deriving DecidableEq, Repr

def FileError.message : FileError → String
  | notFound => "No such file or directory (os error 2)"
  | notADirectory => "Not a directory (os error 20)"
  | isADirectory => "Is a directory (os error 21)"
  | nameTooLong => "File name too long (os error 36)"
  | nulInName => "file name contained an unexpected NUL byte"
  | notUtf8 => "stream did not contain valid UTF-8"
  | other message => message

inductive FileTree (α : Type) where
  | file (content : α)
  | directory (entries : List (String × FileTree α))

namespace FileTree

def empty : FileTree α := directory []

def find? : List String → FileTree α → Option (FileTree α)
  | [], t => some t
  | _ :: _, file _ => none
  | name :: names, directory entries => (entries.lookup name).bind (find? names)

def setEntry (name : String) (t : FileTree α) :
    List (String × FileTree α) → List (String × FileTree α)
  | [] => [(name, t)]
  | (n, u) :: rest => if n = name then (name, t) :: rest else (n, u) :: setEntry name t rest

/-- Put a tree at the end of names. Directories on the way are made as needed. -/
def put (new : FileTree α) : List String → FileTree α → FileTree α
  | [], _ => new
  | name :: names, t =>
    let entries := match t with
      | directory entries => entries
      | file _ => []
    directory (setEntry name (put new names ((entries.lookup name).getD empty)) entries)

def erase : List String → FileTree α → FileTree α
  | [], t => t
  | _ :: _, file content => file content
  | [name], directory entries => directory (entries.filter (·.1 ≠ name))
  | name :: names, directory entries =>
    match entries.lookup name with
    | none => directory entries
    | some t => directory (setEntry name (erase names t) entries)

mutual

def outline : FileTree α → FileTree Unit
  | file _ => file ()
  | directory entries => directory (outlineEntries entries)

def outlineEntries : List (String × FileTree α) → List (String × FileTree Unit)
  | [] => []
  | (name, t) :: rest => (name, outline t) :: outlineEntries rest

end

/-! ## Paths in a tree

A path is followed step by step from the top of the tree. Above the top nothing is known.
-/

/-- The names that lead to where a path ends, or `none` for a place outside the tree. -/
abbrev Place := Option (List String)

/-- What stands at a place. Outside the tree there is a directory without entries. -/
def at? (t : FileTree α) : Place → Option (FileTree α)
  | none => some empty
  | some names => t.find? names

def step (entries : List (String × FileTree α)) (place : Place) (segment : String) :
    Except FileError Place :=
  if Path.isIdle segment then .ok place
  else if segment = ".." then
    .ok (place.bind fun names => if names.isEmpty then none else some names.dropLast)
  else if 255 < segment.utf8ByteSize then .error .nameTooLong
  else if (entries.lookup segment).isNone then .error .notFound
  else .ok (place.map (· ++ [segment]))

def follow (t : FileTree α) : Place → List String → Except FileError Place
  | place, [] => .ok place
  | place, segment :: rest =>
    match t.at? place with
    | none => .error .notFound
    | some (file _) => .error .notADirectory
    | some (directory entries) =>
      match step entries place segment with
      | .ok place => follow t place rest
      | .error e => .error e

def checkPath (path : String) : Except FileError Unit :=
  if path.toList.contains (Char.ofNat 0) then .error .nulInName
  else if path.isEmpty then .error .notFound
  else if Path.isTooLong path then .error .nameTooLong
  else .ok ()

def start (path : String) : Place := if Path.isAbsolute path then none else some []

def locate (t : FileTree α) (path : String) : Except FileError Place := do
  checkPath path
  follow t (start path) (Path.segments path)

def read (t : FileTree α) (path : String) : Except FileError α :=
  match t.locate path with
  | .error e => .error e
  | .ok place =>
    match t.at? place with
    | some (file content) => .ok content
    | some (directory _) => .error .isADirectory
    | none => .error .notFound

def list (t : FileTree α) (path : String) : Except FileError (FileTree Unit) :=
  match t.locate path with
  | .error e => .error e
  | .ok place =>
    match t.at? place with
    | some (directory entries) => .ok (directory entries).outline
    | some (file _) => .error .notADirectory
    | none => .error .notFound

/-- Write a file at a path, in a directory that is there already. -/
def write (t : FileTree α) (path : String) (content : α) : Except FileError (FileTree α) := do
  checkPath path
  let parts := Path.segments path
  let steps := (parts.reverse.dropWhile (· = "")).reverse
  let place ← follow t (start path) (steps.dropLast ++ [""])
  match place, steps.getLast? with
  | some names, some name =>
    if steps.length < parts.length ∨ name = "." ∨ name = ".." then .error .isADirectory
    else if 255 < name.utf8ByteSize then .error .nameTooLong
    else
      match t.find? (names ++ [name]) with
      | some (directory _) => .error .isADirectory
      | _ => .ok (put (file content) (names ++ [name]) t)
  | none, some _ => .error .notFound
  | _, none => .error .isADirectory

end FileTree

end Gsc
