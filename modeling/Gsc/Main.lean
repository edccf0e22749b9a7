import Gsc.Cli.Compiler
import Gsc.Cli.Host

/-! # The programs

The first argument names the program, the others are its own.
-/

namespace Gsc.Main

def fileError (e : IO.Error) : FileError :=
  match e with
  | .noFileOrDirectory .. => .notFound
  | .inappropriateType _ code _ | .invalidArgument _ code _ =>
    if code = 20 then .notADirectory
    else if code = 21 then .isADirectory
    else if code = 36 then .nameTooLong
    else .other e.toString
  | _ => .other e.toString

def attempt (act : IO α) : IO (Except FileError α) := do
  try
    return .ok (← act)
  catch e => return .error (fileError e)

partial def outline (path : String) : IO (FileTree Unit) := do
  let here ← IO.FS.realPath path
  let mut entries := []
  for entry in ← here.readDir do
    let below := entry.path.toString
    let t ← if ← entry.path.isDir then outline below else pure (.file ())
    entries := (entry.fileName, t) :: entries
  return .directory entries

def files : Files IO where
  read path := attempt do return (← IO.FS.readBinFile path).toList
  list path := attempt (outline path)
  write path content := attempt (IO.FS.writeBinFile path ⟨content.toArray⟩)

end Gsc.Main

open Gsc in
def main (args : List String) : IO UInt32 := do
  let outcome ← match args with
    | "gscc" :: args => Cli.Compiler.run Deflate.storedStream Main.files args
    | "gsc-host" :: args => Cli.Host.run Deflate.storedStream Main.files args
    | _ => pure ⟨2, "", "Usage: gsc <gscc|gsc-host> [ARGUMENTS]\n"⟩
  IO.print outcome.stdout
  IO.eprint outcome.stderr
  return outcome.code
