import Gsc.Files.Access
import Gsc.Image.OpcodeTable
import Gsc.Naming.TokenTable

/-! # Host configuration -/

namespace Gsc

structure Config where
  scriptDirs : List String
  tokenTable : Option String
  opcodeTable : Option String
  scripts : List (String × String)
  deriving DecidableEq, Repr

inductive ConfigError where
  | unreachable (path : String) (error : FileError)
  | unreadable (path : String) (error : Toml.Error)
  | tokens (path : String) (error : TokenError)
  | opcodes (path : String) (error : TableError)
  deriving DecidableEq, Repr

def ConfigError.message : ConfigError → String
  | unreachable path e => "failed to read '" ++ path ++ "': " ++ e.message
  | unreadable path e => "invalid config '" ++ path ++ "': " ++ e.message
  | tokens path e => "invalid token table '" ++ path ++ "': " ++ e.message
  | opcodes path e => "invalid opcode table '" ++ path ++ "': " ++ e.message

namespace Config

def empty : Config := ⟨[], none, none, []⟩

def rebase (c : Config) (base : String) : Config where
  scriptDirs := c.scriptDirs.map (Path.join base)
  tokenTable := c.tokenTable.map (Path.join base)
  opcodeTable := c.opcodeTable.map (Path.join base)
  scripts := c.scripts.map fun (name, path) => (name, Path.join base path)

def keys : List String := ["script_dirs", "token_table", "opcode_table", "scripts"]

/-- Read a configuration. Keys that it does not have are refused. -/
def readDocument (text : String) : Except Toml.Error Config := do
  let entries ← Toml.parse text
  match entries.find? fun (key, _) => !keys.contains key with
  | some (key, _) => throw (.unknown key)
  | none => pure ()
  let path (key : String) : Except Toml.Error (Option String) :=
    Toml.Entries.read entries key (.ok none) fun v => (v.asText key).map some
  let scriptDirs ← Toml.Entries.read entries "script_dirs" (.ok [])
    (Toml.Value.asList "script_dirs" (Toml.Value.asText "script_dirs"))
  let tokenTable ← path "token_table"
  let opcodeTable ← path "opcode_table"
  let scripts ← Toml.Entries.read entries "scripts" (.ok [])
    (Toml.Value.asMap "scripts" Toml.Value.asText)
  return ⟨scriptDirs, tokenTable, opcodeTable, scripts⟩

def ofToml (text base : String) : Except Toml.Error Config :=
  (readDocument text).map (·.rebase base)

def readText [Monad m] (files : Files m) (path : String) : ExceptT ConfigError m String := do
  match ← files.readText path with
  | .ok text => return text
  | .error e => throw (.unreachable path e)

def load [Monad m] (files : Files m) (path : String) : ExceptT ConfigError m Config := do
  let text ← readText files path
  match ofToml text (Path.parent path) with
  | .ok config => return config
  | .error e => throw (.unreadable path e)

/-- The token table of a configuration, which is empty if none is named. -/
def loadTokens [Monad m] (c : Config) (files : Files m) : ExceptT ConfigError m TokenTable := do
  match c.tokenTable with
  | none => return .empty ""
  | some path =>
    match TokenTable.ofToml (← readText files path) with
    | .ok table => return table
    | .error e => throw (.tokens path e)

/-- The opcode table of a configuration, or the usual one if none is named. -/
def loadOpcodes [Monad m] (c : Config) (files : Files m) : ExceptT ConfigError m OpcodeTable := do
  match c.opcodeTable with
  | none => return .v1
  | some path =>
    match OpcodeTable.ofToml (← readText files path) with
    | .ok table => return table
    | .error e => throw (.opcodes path e)

end Config

end Gsc
