import Gsc.Host.Cache
import Gsc.Host.ScriptSource

/-! # Script server

A server answers requests for scripts. It resolves the identifier, takes the script from its source
and keeps what it built in a cache.
-/

namespace Gsc

/-- An artifact with the number of the build that made it. -/
structure Built where
  serial : Nat
  artifact : Artifact
  deriving DecidableEq, Repr

inductive AssetKind where
  | scriptFile
  | rawFile
  | stringTable
  | other (code : UInt32)
  deriving DecidableEq, Repr

structure Server where
  tokens : TokenTable
  pipeline : Pipeline
  cache : Cache Built

/-- A script that was loaded, with the offsets of its entry points. -/
structure Preloaded where
  name : String
  main : Option UInt32
  init : Option UInt32
  deriving DecidableEq, Repr

structure PreloadReport where
  loaded : List Preloaded
  skipped : List String
  failed : List LoadFailure
  deriving DecidableEq, Repr

namespace Server

def new (tokens : TokenTable) (pipeline : Pipeline) : Server := ⟨tokens, pipeline, .empty⟩

def ofConfig [Monad m] (encode : Bytes → Bytes) (c : Config) (files : Files m) :
    ExceptT ConfigError m Server := do
  let tokens ← c.loadTokens files
  let opcodes ← c.loadOpcodes files
  return new tokens ⟨opcodes, encode⟩

def buildFound (p : Pipeline) (serial : Nat) (name : String) :
    Except SourceError (Option Bytes) → Except LoadError Built
  | .error e => .error (.failed ⟨name, .source, e.message⟩)
  | .ok none => .error (.sourceNotFound name)
  | .ok (some source) =>
    match p.build name source with
    | .ok artifact => .ok ⟨serial, artifact⟩
    | .error e => .error (.failed ⟨name, e.stage, e.message⟩)

def loadName [Monad m] (s : Server) (source : ScriptSource m) (name : String) :
    m (Except LoadError Built × Server) := do
  let (result, cache) ← s.cache.getOrBuild name fun cache => do
    let found ← source.fetch name
    return (buildFound s.pipeline cache.stats.builds name found, cache)
  return (result, { s with cache })

def load [Monad m] (s : Server) (source : ScriptSource m) (identifier : Identifier) :
    m (Except LoadError Built × Server) :=
  match resolve identifier s.tokens with
  | .ok name => s.loadName source name
  | .error e => pure (.error (.resolve e), s)

/-- Answer a request for a file. `none` leaves it to another loader. -/
def loadScript [Monad m] (s : Server) (source : ScriptSource m) (kind : AssetKind)
    (name : String) : m (Except LoadFailure (Option Built) × Server) :=
  if kind = .scriptFile then do
    let (result, s) ← s.load source (.parse name)
    match result with
    | .ok built => return (.ok (some built), s)
    | .error (.failed failure) => return (.error failure, s)
    | .error _ => return (.ok none, s)
  else pure (.ok none, s)

def functionHandle [Monad m] (s : Server) (source : ScriptSource m) (name function : String) :
    m (Except LoadError (Option UInt32) × Server) := do
  let (result, s) ← s.load source (.parse name)
  return (result.map fun built => (built.artifact.function? function).map (·.offset), s)

def entryPoints (name : String) (a : Artifact) : Preloaded :=
  ⟨name, (a.function? "main").map (·.offset), (a.function? "init").map (·.offset)⟩

def preloadNames [Monad m] (source : ScriptSource m) :
    Server → List String → m (PreloadReport × Server)
  | s, [] => return (⟨[], [], []⟩, s)
  | s, name :: rest => do
    let (result, s) ← s.loadName source name
    let (report, s) ← preloadNames source s rest
    match result with
    | .ok built =>
      return ({ report with loaded := entryPoints name built.artifact :: report.loaded }, s)
    | .error (.failed failure) => return ({ report with failed := failure :: report.failed }, s)
    | .error _ => return ({ report with skipped := name :: report.skipped }, s)

/-- Load the given scripts, or all that the source has. -/
def preload [Monad m] (s : Server) (source : ScriptSource m) (names : Option (List String)) :
    m (Except SourceError PreloadReport × Server) := do
  let names ← match names with
    | some names => pure (.ok names)
    | none => source.scan
  match names with
  | .error e => return (.error e, s)
  | .ok names =>
    let (report, s) ← preloadNames source s names
    return (.ok report, s)

end Server

end Gsc
