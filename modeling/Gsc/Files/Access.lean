import Gsc.Files.Tree
import Gsc.Text.Utf8

/-! # Access to files -/

namespace Gsc

structure Files (m : Type → Type) where
  read : String → m (Except FileError Bytes)
  list : String → m (Except FileError (FileTree Unit))
  write : String → Bytes → m (Except FileError Unit)

def Files.readText [Monad m] (files : Files m) (path : String) : m (Except FileError String) := do
  match ← files.read path with
  | .error e => return .error e
  | .ok bytes =>
    match Utf8.toString? bytes with
    | some text => return .ok text
    | none => return .error .notUtf8

def FileTree.files : Files (StateM (FileTree Bytes)) where
  read path := return (← get).read path
  list path := return (← get).list path
  write path content := do
    match (← get).write path content with
    | .ok t => set t; return .ok ()
    | .error e => return .error e

end Gsc
