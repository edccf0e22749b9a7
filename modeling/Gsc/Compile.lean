import Gsc.Lowering.Script
import Gsc.Script.Parse
import Gsc.Source.Diagnostic
import Gsc.Text.Utf8

/-! # Compiling a script

From the bytes of a script to its program, or to everything that is wrong with it.
-/

namespace Gsc

structure CompileError where
  source : Source
  diagnostics : List Diagnostic
  deriving DecidableEq, Repr

def CompileError.message (e : CompileError) : String :=
  Diagnostic.renderAll e.source e.diagnostics

def Finding.toDiagnostic (f : Finding) : Diagnostic :=
  ⟨f.defect.message, some f.span, f.defect.notes⟩

def ParseError.toDiagnostic (e : ParseError) : Diagnostic := ⟨e.headline, e.span?, []⟩

def notUtf8 (bytes : Bytes) : Diagnostic :=
  ⟨"script source is not valid UTF-8", some (.point (Utf8.validLength bytes)), []⟩

def parseSource (name : String) (bytes : Bytes) : Except CompileError (Source × Script) :=
  match Utf8.decode? bytes with
  | none => .error ⟨⟨name, Utf8.decodeLossy bytes⟩, [notUtf8 bytes]⟩
  | some content =>
    match Script.parseChars content with
    | .ok script => .ok (⟨name, content⟩, script)
    | .error e => .error ⟨⟨name, content⟩, [e.toDiagnostic]⟩

def compile (name : String) (bytes : Bytes) : Except CompileError Program :=
  match parseSource name bytes with
  | .error e => .error e
  | .ok (source, script) =>
    match script.lower name with
    | (program, []) => .ok program
    | (_, findings) => .error ⟨source, findings.map Finding.toDiagnostic⟩

end Gsc
