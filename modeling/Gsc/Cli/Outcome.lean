import Gsc.Cli.Arguments
import Gsc.Host.Server
import Gsc.Image.Disassembly

/-! # Runs of a program

A run writes to two channels and ends in a code. A failure is told with everything that caused it.
-/

namespace Gsc

/-! ## Causes

The message of an error, and then the messages of the errors it came from.
-/

def TableError.chain (e : TableError) : List String :=
  match e with
  | .unreadable cause => [e.message, cause.message]
  | _ => [e.message]

def TokenError.chain (e : TokenError) : List String :=
  match e with
  | .unreadable cause => [e.message, cause.message]
  | _ => [e.message]

def ConfigError.chain (e : ConfigError) : List String :=
  match e with
  | .unreachable _ cause => [e.message, cause.message]
  | .unreadable _ cause => [e.message, cause.message]
  | .tokens _ cause => e.message :: cause.chain
  | .opcodes _ cause => e.message :: cause.chain

def SourceError.chain (e : SourceError) : List String := [e.message, e.error.message]

def PackError.chain (e : PackError) : List String :=
  match e with
  | .decompress .corrupt => [e.message, "corrupt deflate stream"]
  | _ => [e.message]

def DisassembleError.chain (e : DisassembleError) : List String :=
  match e with
  | .stack cause => [e.message, cause.message]
  | _ => [e.message]

namespace Cli

structure Failure where
  message : String
  causes : List String
  deriving DecidableEq, Repr

/-- The lines of a text with something in front of the first, and of all others. -/
def indentLines (first other : String) (text : String) : String :=
  let rec go : List Char → List Char
    | [] => []
    | c :: rest => if c = '\n' then '\n' :: (other.toList ++ go rest) else c :: go rest
  first ++ String.ofList (go text.toList)

def numbered : Nat → List String → String
  | _, [] => ""
  | n, cause :: rest =>
    "\n" ++ indentLines (Text.decimal 5 n ++ ": ") "       " cause ++ numbered (n + 1) rest

def Failure.render (f : Failure) : String :=
  match f.causes with
  | [] => f.message
  | [cause] => f.message ++ "\n\nCaused by:\n" ++ indentLines "    " "    " cause
  | causes => f.message ++ "\n\nCaused by:" ++ numbered 0 causes

structure Output where
  stdout : String
  stderr : String
  deriving DecidableEq, Repr

structure Outcome where
  code : UInt32
  stdout : String
  stderr : String
  deriving DecidableEq, Repr

abbrev Run (m : Type → Type) := ExceptT (Fault Failure) (StateT Output m)

namespace Run

variable {m : Type → Type} [Monad m]

def print (text : String) : Run m Unit := modify fun o => { o with stdout := o.stdout ++ text }

def warn (text : String) : Run m Unit := modify fun o => { o with stderr := o.stderr ++ text }

def fail (message : String) (causes : List String) : Run m α := throw (.error ⟨message, causes⟩)

/-- Do something outside, and fail with a message if it fails. -/
def attempt (message : String) (chain : ε → List String) (act : m (Except ε α)) : Run m α := do
  match ← (act : m (Except ε α)) with
  | .ok a => return a
  | .error e => fail message (chain e)

/-- Go on with a result, or fail with a message. -/
def expect (message : String) (chain : ε → List String) : Except ε α → Run m α
  | .ok a => return a
  | .error e => fail message (chain e)

/-- Go on with a result, or fail with a message unless the program was stopped. -/
def expectValue (message : String) (chain : ε → List String) : Except (Fault ε) α → Run m α
  | .ok a => return a
  | .error (.error e) => fail message (chain e)
  | .error (.panic reason) => throw (.panic reason)

def fileChain (e : FileError) : List String := [e.message]

def outcome (run : Run m Unit) : m Outcome := do
  let (result, output) ← (ExceptT.run run).run ⟨"", ""⟩
  match result with
  | .ok () => return ⟨0, output.stdout, output.stderr⟩
  | .error (.error f) =>
    return ⟨1, output.stdout, output.stderr ++ "Error: " ++ f.render ++ "\n"⟩
  | .error (.panic reason) => return ⟨101, output.stdout, output.stderr ++ reason ++ "\n"⟩

end Run

def ProgramSpec.usage (p : ProgramSpec) : String :=
  "Usage: " ++ p.name ++ " [OPTIONS] <COMMAND>\n\nCommands:\n"
    ++ String.join (p.commands.map fun c => "  " ++ c.name ++ "\n")

def Stop.outcome (p : ProgramSpec) : Stop → Outcome
  | usage => ⟨2, "", p.usage⟩
  | help => ⟨0, p.usage, ""⟩
  | version => ⟨0, p.name ++ " 0.1.0\n", ""⟩

/-- The line of a function: its offset, its size and its name. -/
def functionLine (name : String) (offset size : UInt32) : String :=
  "  0x" ++ Text.hex 4 offset.toNat ++ " " ++ Text.decimal 6 size.toNat ++ "  " ++ name ++ "\n"

end Cli

end Gsc
