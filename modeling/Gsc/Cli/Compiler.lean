import Gsc.Artifact.Sidecar
import Gsc.Cli.Outcome
import Gsc.Script.Dump
import Gsc.Text.Lowercase

/-! # The compiler's commands -/

namespace Gsc.Cli.Compiler

def spec : ProgramSpec where
  name := "gscc"
  globals := [⟨"opcodes", none, .single, true, false⟩]
  commands :=
    [⟨"compile",
        [⟨"output", some 'o', .single, true, true⟩, ⟨"name", some 'n', .single, false, false⟩],
        1, some 1, true⟩,
      ⟨"ast", [⟨"pretty", some 'p', .flag, false, false⟩, ⟨"json", some 'j', .flag, false, false⟩],
        1, some 1, true⟩,
      ⟨"ir", [⟨"json", some 'j', .flag, false, false⟩], 1, some 1, true⟩,
      ⟨"check", [], 1, none, true⟩,
      ⟨"inspect", [⟨"disasm", some 'd', .flag, false, false⟩], 1, some 2, true⟩]

def scriptName (file : String) : String :=
  match Path.fileName? file with
  | some name => Text.lowercaseAll (Path.splitExtension name).1
  | none => ""

def sidecar (path : String) : String := path ++ ".json"

variable {m : Type → Type} [Monad m]

open Run

def loadOpcodes (files : Files m) : Option String → Run m OpcodeTable
  | none => return .v1
  | some path => do
    let text ← attempt ("Failed to read opcode table: " ++ path) fileChain (files.readText path)
    expect ("Invalid opcode table: " ++ path) TableError.chain (OpcodeTable.ofToml text)

def readSource (files : Files m) (file : String) : Run m Bytes :=
  attempt ("Failed to read file: " ++ file) fileChain (files.read file)

def compileFile (files : Files m) (p : Pipeline) (file output : String) (name : Option String) :
    Run m Unit := do
  let name := name.getD (scriptName file)
  let source ← readSource files file
  match p.build name source with
  | .error e =>
    warn (e.message ++ "\n")
    fail ("Failed to compile '" ++ name ++ "'") []
  | .ok artifact =>
    attempt ("Failed to write output: " ++ output) fileChain (files.write output artifact.buffer)
    let description := sidecar output
    attempt ("Failed to write metadata: " ++ description) fileChain
      (files.write description (Utf8.ofString (artifact.metadata.toJson.pretty 0)))
    warn ("OK: " ++ name ++ " (" ++ toString artifact.bytecode.length ++ " bytes bytecode, "
      ++ toString artifact.length ++ " -> " ++ toString artifact.compressed.length
      ++ " bytes stack)\n")

def showTree (files : Files m) (file : String) (pretty json : Bool) : Run m Unit := do
  let source ← attempt ("Failed to read file: " ++ file) fileChain (files.readText file)
  match Script.parse source with
  | .error e =>
    warn ("Parse error: " ++ e.message ++ "\n")
    fail "Failed to parse" []
  | .ok script =>
    let dump := script.dump
    let text :=
      if json then
        let document := dump.toJson Json.ofBinary32
        if pretty then document.pretty 0 else document.compact
      else if pretty then dump.indented 0
      else dump.oneLine
    print (text ++ "\n")

def showCode (files : Files m) (file : String) (json : Bool) : Run m Unit := do
  let source ← readSource files file
  match compile (scriptName file) source with
  | .error e =>
    warn (e.message ++ "\n")
    fail "Failed to compile" []
  | .ok program =>
    if json then print ((program.dump.toJson Json.ofBinary32).pretty 0 ++ "\n")
    else print program.show

def countErrors (files : Files m) : List String → Run m Nat
  | [] => return 0
  | file :: rest => do
    let source ← readSource files file
    match compile (scriptName file) source with
    | .error e =>
      warn (e.message ++ "\n")
      return (← countErrors files rest) + 1
    | .ok _ => countErrors files rest

def check (files : Files m) (paths : List String) : Run m Unit := do
  let failed ← countErrors files paths
  if 0 < failed then
    fail ("Check failed: " ++ toString failed ++ " of " ++ toString paths.length
      ++ " script(s) have errors") []
  warn ("OK: " ++ toString paths.length ++ " script(s) checked\n")

def readMetadata (files : Files m) (path : String) : Run m Metadata := do
  let text ← attempt ("Failed to read metadata: " ++ path) fileChain (files.readText path)
  match (Json.parse? text).bind Metadata.ofJson? with
  | some metadata => return metadata
  | none => fail ("Invalid metadata: " ++ path) ["no artifact description"]

def inspect (files : Files m) (table : OpcodeTable) (buffer : String) (description : Option String)
    (disasm : Bool) : Run m Unit := do
  let metadata ← readMetadata files (description.getD (sidecar buffer))
  let bytes ← attempt ("Failed to read buffer: " ++ buffer) fileChain (files.read buffer)
  let artifact ← expectValue "Artifact layout check failed" PackError.chain
    (Artifact.ofParts metadata bytes)
  print ("name:           " ++ artifact.name ++ "\n")
  print ("len:            " ++ toString artifact.length ++ "\n")
  print ("bytecode_len:   " ++ toString artifact.bytecode.length ++ "\n")
  print ("compressed_len: " ++ toString artifact.compressed.length ++ "\n")
  print ("stack_offset:   " ++ toString artifact.stackOffset ++ "\n")
  let stack ← expectValue "Failed to inflate stack" (fun e => [DecompressError.message e])
    artifact.stack
  let functions ← expect "Bytecode does not match its stack region" DisassembleError.chain
    (disassembleFunctions table artifact.bytecode stack)
  print ("\nFunctions (" ++ toString functions.length ++ "):\n")
  for f in functions do
    print (functionLine f.name f.offset f.size)
    if disasm then
      for i in f.code do
        print ("      " ++ i.show ++ "\n")

def dispatch (encode : Bytes → Bytes) (files : Files m) (command : String) (given : Matches) :
    Run m Unit := do
  let table ← loadOpcodes files (given.value? "opcodes")
  match command, given.words with
  | "compile", [file] =>
    compileFile files ⟨table, encode⟩ file ((given.value? "output").getD "") (given.value? "name")
  | "ast", [file] => showTree files file (given.has "pretty") (given.has "json")
  | "ir", [file] => showCode files file (given.has "json")
  | "check", paths => check files paths
  | "inspect", buffer :: more => inspect files table buffer more.head? (given.has "disasm")
  | _, _ => return

def run (encode : Bytes → Bytes) (files : Files m) (args : List String) : m Outcome :=
  match spec.parse args with
  | .error stop => pure (stop.outcome spec)
  | .ok (command, given) => (dispatch encode files command.name given).outcome

end Gsc.Cli.Compiler
