import Gsc.Cli.Outcome

/-! # The host's commands -/

namespace Gsc.Cli.Host

def spec : ProgramSpec where
  name := "gsc-host"
  globals :=
    [⟨"config", some 'c', .single, true, false⟩,
      ⟨"script-dir", some 'd', .many, true, false⟩]
  commands := [⟨"load", [], 1, none, false⟩, ⟨"preload", [], 0, some 0, false⟩,
    ⟨"list", [], 0, some 0, false⟩]

variable {m : Type → Type} [Monad m]

open Run

def loadAll (source : ScriptSource m) :
    Server → List String → m (List (String × Except LoadFailure (Option Built)) × Server)
  | s, [] => return ([], s)
  | s, name :: rest => do
    let (result, s) ← s.loadScript source .scriptFile name
    let (results, s) ← loadAll source s rest
    return ((name, result) :: results, s)

def artifactLines (a : Artifact) : String :=
  a.name ++ ": len=" ++ toString a.length ++ " bytecode_len=" ++ toString a.bytecode.length
    ++ " compressed_len=" ++ toString a.compressed.length ++ " stack_offset="
    ++ toString a.stackOffset ++ "\n"
    ++ String.join (a.functions.map fun f => functionLine f.name f.offset f.size)

def tellResult (name : String) : Except LoadFailure (Option Built) → Run m Unit
  | .ok (some built) => print (artifactLines built.artifact)
  | .ok none => print (name ++ ": not handled\n")
  | .error failure => warn (failure.text ++ "\n")

def isFailure : Except LoadFailure (Option Built) → Bool
  | .ok _ => false
  | .error _ => true

def load (source : ScriptSource m) (server : Server) (names : List String) : Run m Unit := do
  let (results, server) ← (loadAll source server names : m _)
  for (name, result) in results do
    tellResult name result
  let stats := server.cache.stats
  warn ("cache: " ++ toString stats.hits ++ " hit(s), " ++ toString stats.misses ++ " miss(es), "
    ++ toString stats.builds ++ " build(s), " ++ toString stats.failures ++ " failure(s)\n")
  let failed := (results.filter fun (_, result) => isFailure result).length
  if 0 < failed then fail (toString failed ++ " script(s) failed to load") []

def handle : Option UInt32 → String
  | none => "-"
  | some offset => "0x" ++ Text.hex 4 offset.toNat

def scanFailure : String := "Failed to scan script directories"

def preload (source : ScriptSource m) (server : Server) : Run m Unit := do
  let (result, _) ← (server.preload source none : m _)
  let report ← expect scanFailure SourceError.chain result
  for p in report.loaded do
    print (p.name ++ ": main=" ++ handle p.main ++ " init=" ++ handle p.init ++ "\n")
  for name in report.skipped do
    print (name ++ ": skipped\n")
  for failure in report.failed do
    warn (failure.text ++ "\n")
  warn ("OK: " ++ toString report.loaded.length ++ " loaded, " ++ toString report.skipped.length
    ++ " skipped, " ++ toString report.failed.length ++ " failed\n")
  if !report.failed.isEmpty then fail "preload failed" []

def list (source : ScriptSource m) : Run m Unit := do
  let names ← attempt scanFailure SourceError.chain source.scan
  for name in names do
    print (name ++ "\n")

def dispatch (encode : Bytes → Bytes) (files : Files m) (command : String) (given : Matches) :
    Run m Unit := do
  let config ← match given.value? "config" with
    | some path =>
      attempt ("Failed to load config: " ++ path) ConfigError.chain (Config.load files path).run
    | none => pure Config.empty
  let config := { config with scriptDirs := config.scriptDirs ++ given.all "script-dir" }
  let server ← attempt "Failed to start script server" ConfigError.chain
    (Server.ofConfig encode config files).run
  let source := config.searchPath.source files
  match command with
  | "load" => load source server given.words
  | "preload" => preload source server
  | _ => list source

def run (encode : Bytes → Bytes) (files : Files m) (args : List String) : m Outcome :=
  match spec.parse args with
  | .error stop => pure (stop.outcome spec)
  | .ok (command, given) => (dispatch encode files command.name given).outcome

end Gsc.Cli.Host
