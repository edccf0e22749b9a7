import Gsc.Host.Config

/-! # Sources of scripts

A source hands out the bytes of a script by name, and tells which names it has. Scripts are kept in
memory, or looked up in the directories of a configuration.
-/

namespace Gsc

/-- Why a source fails: a path that is there but cannot be read. -/
structure SourceError where
  path : String
  error : FileError
  deriving DecidableEq, Repr

def SourceError.message (e : SourceError) : String :=
  "failed to read '" ++ e.path ++ "': " ++ e.error.message

structure ScriptSource (m : Type → Type) where
  fetch : String → m (Except SourceError (Option Bytes))
  scan : m (Except SourceError (List String))

def insertName (name : String) : List String → List String
  | [] => [name]
  | n :: rest =>
    if name = n then n :: rest
    else if name < n then name :: n :: rest
    else n :: insertName name rest

def sortNames (names : List String) : List String := names.foldr insertName []

/-! ## Scripts in memory -/

abbrev ScriptTable := List (String × Bytes)

namespace ScriptTable

def erase (t : ScriptTable) (name : String) : ScriptTable := t.filter (·.1 ≠ name)

def insert (t : ScriptTable) (name : String) (source : Bytes) : ScriptTable :=
  (name, source) :: t.erase name

def source [Pure m] (t : ScriptTable) : ScriptSource m where
  fetch name := pure (.ok (t.lookup name))
  scan := pure (.ok (sortNames (t.map (·.1))))

end ScriptTable

/-! ## Scripts in directories -/

/-- Directories that are searched in order, and names with a path of their own. -/
structure SearchPath where
  overrides : List (String × String)
  dirs : List String
  deriving DecidableEq, Repr

def Config.searchPath (c : Config) : SearchPath := ⟨c.scripts, c.scriptDirs⟩

namespace SearchPath

def withOverride (s : SearchPath) (name path : String) : SearchPath :=
  { s with overrides := (name, path) :: s.overrides.filter (·.1 ≠ name) }

def extension : String := "gsc"

def filePath (dir name : String) : String := Path.join dir (name ++ "." ++ extension)

def firstFound [Monad m] (files : Files m) :
    List String → m (Except SourceError (Option Bytes))
  | [] => return .ok none
  | path :: rest => do
    match ← files.read path with
    | .ok bytes => return .ok (some bytes)
    | .error .notFound => firstFound files rest
    | .error e => return .error ⟨path, e⟩

/-- The bytes of a script. A name with a path of its own is looked for there only, and a name that
leads out of the directories is not looked for at all. -/
def fetch [Monad m] (s : SearchPath) (files : Files m) (name : String) :
    m (Except SourceError (Option Bytes)) := do
  match s.overrides.lookup name with
  | some path =>
    match ← files.read path with
    | .ok bytes => return .ok (some bytes)
    | .error e => return .error ⟨path, e⟩
  | none =>
    if Path.staysBelow name then firstFound files (s.dirs.map (filePath · name))
    else return .ok none

/-- The script name of a file, if it is a script. Where only a dot is left in front of the
extension, the dot of the extension stays with it. -/
def scriptName? (dirs : List String) (fileName : String) : Option String :=
  match Path.splitExtension fileName with
  | (stem, some ext) =>
    if ext = extension then
      some ("/".intercalate (dirs ++ [if stem = "." then ".." else stem]))
    else none
  | (_, none) => none

def entryPath (root : String) (dirs : List String) (name : String) : String :=
  Path.join root ("/".intercalate (dirs ++ [name]))

mutual

/-- The scripts of a directory entry, below the given directories. A directory whose path cannot be
looked up passes for a file. -/
def namesIn (root : String) (dirs : List String) (name : String) : FileTree Unit → List String
  | .file () => (scriptName? dirs name).toList
  | .directory entries =>
    if Path.isTooLong (entryPath root dirs name) then (scriptName? dirs name).toList
    else namesInAll root (dirs ++ [name]) entries

def namesInAll (root : String) (dirs : List String) : List (String × FileTree Unit) → List String
  | [] => []
  | (name, t) :: rest => namesIn root dirs name t ++ namesInAll root dirs rest

end

def namesBelow (root : String) : FileTree Unit → List String
  | .file () => []
  | .directory entries => namesInAll root [] entries

/-- The scripts in some directories. One that is missing has none. -/
def scanDirs [Monad m] (files : Files m) : List String → m (Except SourceError (List String))
  | [] => return .ok []
  | dir :: rest => do
    match ← files.list dir with
    | .ok t =>
      match ← scanDirs files rest with
      | .ok names => return .ok (namesBelow dir t ++ names)
      | .error e => return .error e
    | .error .notFound => scanDirs files rest
    | .error e => return .error ⟨dir, e⟩

def scan [Monad m] (s : SearchPath) (files : Files m) : m (Except SourceError (List String)) := do
  match ← scanDirs files s.dirs with
  | .ok names => return .ok (sortNames (s.overrides.map (·.1) ++ names))
  | .error e => return .error e

def source [Monad m] (s : SearchPath) (files : Files m) : ScriptSource m :=
  ⟨s.fetch files, s.scan files⟩

end SearchPath

end Gsc
