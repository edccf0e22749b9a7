import Gsc.Lowering.Stmt

/-! # Lowering scripts

Every function becomes a routine. Of several functions with one name the first counts. Findings do
not stop the work, so that one run reports all of them.
-/

namespace Gsc

namespace Draft

/-- Give the parameters their slots; a name that comes twice is reported. -/
def defineParams : List String → List (Located String) → Draft → Draft
  | _, [], d => d
  | seen, p :: rest, d =>
    if seen.contains p.value then
      defineParams seen rest (d.report (.duplicateParameter p.value) p.span)
    else defineParams (p.value :: seen) rest (d.defineSlot p.value p.span).2

/-- The routine of a finished draft, whose first instruction is left for the number of variables. -/
def toRoutine (d : Draft) (name : String) (params : Nat) : Routine :=
  { name
    params
    locals := d.slots.names.toList
    code :=
      ⟨.createLocalVariables, [.byte params.toUInt8, .byte d.slots.size.toUInt8]⟩
        :: d.code.toList.drop 1
    labels := d.labels.toList }

end Draft

def Function.lower (scope : Scope) (f : Function) : Routine × List Finding :=
  let start := Draft.empty.defineParams [] f.params
  let d := lowerBody scope f.body (start.emit .createLocalVariables)
  let d := d.emit .finish
  (d.toRoutine f.name start.slots.size, d.findings.toList)

namespace Script

/-- Functions whose name was used before, in order. -/
def duplicates : List String → List Function → List Function
  | _, [] => []
  | seen, f :: rest =>
    if seen.contains f.name then f :: duplicates seen rest else duplicates (f.name :: seen) rest

/-- The first function of each name, in order. -/
def firsts : List String → List Function → List Function
  | _, [] => []
  | seen, f :: rest =>
    if seen.contains f.name then firsts seen rest else f :: firsts (f.name :: seen) rest

def scope (s : Script) : Scope := ⟨s.functions.map Function.name⟩

/-- The program of a script, and what was found wrong with the script. -/
def lower (name : String) (s : Script) : Program × List Finding :=
  let routines := (firsts [] s.functions).map (Function.lower s.scope)
  let repeated := (duplicates [] s.functions).map fun f =>
    (⟨.duplicateFunction f.name, f.nameSpan⟩ : Finding)
  ({ name
     includes := s.includes.map Located.value
     animtree := s.animtree.map Located.value
     routines := routines.map Prod.fst },
    repeated ++ routines.flatMap Prod.snd)

end Script

end Gsc
