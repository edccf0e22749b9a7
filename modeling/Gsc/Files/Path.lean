/-! # Paths

A path is a text. It is cut at each `/`, and nothing is normalised where it is shown.
-/

namespace Gsc.Path

def cut : List Char → List (List Char)
  | [] => [[]]
  | c :: rest =>
    if c = '/' then [] :: cut rest
    else
      match cut rest with
      | [] => [[c]]
      | part :: parts => (c :: part) :: parts

def segments (path : String) : List String := (cut path.toList).map String.ofList

def isAbsolute (path : String) : Bool := path.toList.head? = some '/'

/-- A path below another one. An absolute path stays as it is. -/
def join (base path : String) : String :=
  if isAbsolute path then path
  else if base.isEmpty ∨ base.toList.getLast? = some '/' then base ++ path
  else base ++ "/" ++ path

/-- Whether a name cannot lead out of the directory it is looked up in. -/
def staysBelow (name : String) : Bool := !isAbsolute name && !(segments name).contains ".."

def isTooLong (path : String) : Bool := 4095 < path.utf8ByteSize

/-- Whether a part is no step: nothing, or the directory itself. -/
def isIdle (segment : String) : Bool := segment = "" || segment = "."

def dropIdle (segments : List String) : List String := (segments.reverse.dropWhile isIdle).reverse

def fileName? (path : String) : Option String :=
  match (dropIdle (segments path)).getLast? with
  | some ".." => none
  | name => name

def parent (path : String) : String :=
  let (root, body) := if isAbsolute path then ("/", (segments path).drop 1) else ("", segments path)
  let leading := if root = "" ∧ body.head? = some "." then ["."] else []
  let steps := dropIdle (body.drop leading.length)
  match steps with
  | [] => root
  | _ => root ++ "/".intercalate (leading ++ dropIdle steps.dropLast)

/-- The part of a file name in front of its last dot and the part behind it. A dot in front of
everything divides nothing. -/
def splitExtension (name : String) : String × Option String :=
  let behind := name.toList.reverse.takeWhile (· ≠ '.')
  let front := name.toList.reverse.drop (behind.length + 1)
  if behind.length = name.length ∨ front.isEmpty then (name, none)
  else (String.ofList front.reverse, some (String.ofList behind.reverse))

end Gsc.Path
