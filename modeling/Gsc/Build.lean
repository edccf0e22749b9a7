import Gsc.Artifact.Basic
import Gsc.Compile
import Gsc.Image.Assembly

/-! # Building a script -/

namespace Gsc

inductive BuildError where
  | compile (error : CompileError)
  | assemble (fault : Fault AssembleError)
  | pack (error : PackError)
  deriving DecidableEq, Repr

inductive Stage where
  | source
  | compile
  | assemble
  | pack
  deriving DecidableEq, Repr

def Stage.name : Stage → String
  | source => "source"
  | compile => "compile"
  | assemble => "assemble"
  | pack => "pack"

namespace BuildError

def stage : BuildError → Stage
  | compile _ => .compile
  | assemble _ => .assemble
  | pack _ => .pack

def message : BuildError → String
  | compile e => e.message
  | assemble fault => "assembly failed: " ++ fault.message AssembleError.message
  | pack e => "packing failed: " ++ e.message

end BuildError

/-- The artifact of a script, from its bytes, with an encoder of streams. -/
def buildWith (encode : Bytes → Bytes) (t : OpcodeTable) (name : String) (source : Bytes) :
    Except BuildError Artifact :=
  match compile name source with
  | .error e => .error (.compile e)
  | .ok program =>
    match program.assemble t with
    | .error e => .error (.assemble e)
    | .ok image =>
      let stack := CompressedStack.ofStack encode image.stack
      match Artifact.pack name image.bytecode stack.bytes stack.length image.functions with
      | .error e => .error (.pack e)
      | .ok artifact => .ok artifact

/-- What makes artifacts of scripts: the numbers of the opcodes and an encoder of streams. -/
structure Pipeline where
  opcodes : OpcodeTable
  encode : Bytes → Bytes

def Pipeline.build (p : Pipeline) : String → Bytes → Except BuildError Artifact :=
  buildWith p.encode p.opcodes

end Gsc
