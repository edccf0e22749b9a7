import Gsc.Lowering.Slots
import Gsc.Script.Operator
import Gsc.Source.Basic

/-! # Defects of a script

What lowering finds wrong with a script that parses.
-/

namespace Gsc

/-- Argument counts are single bytes. -/
def argumentLimit : Nat := 255

inductive Defect where
  | duplicateFunction (name : String)
  | duplicateParameter (name : String)
  | tooManyLocals
  | breakOutsideLoop
  | continueOutsideLoop
  | tooManyNotifyArguments
  | tooManyArguments
  | notAssignable (op : BinaryOp)
  | notACall
  | usedBeforeAssigned (name : String)
  | sizeAssigned
  | invalidTarget
  | unknownReference (name : String)
  | unknownFunction (name : String)
  | builtinThread (name : String)
  | integerTooWide (value : Int)
  deriving DecidableEq, Repr

namespace Defect

def message : Defect → String
  | duplicateFunction name => "function '" ++ name ++ "' is already defined"
  | duplicateParameter name => "duplicate parameter '" ++ name ++ "'"
  | tooManyLocals =>
    "too many local variables in one function (limit is " ++ toString Slots.limit ++ ")"
  | breakOutsideLoop => "'break' outside of a loop"
  | continueOutsideLoop => "'continue' outside of a loop"
  | tooManyNotifyArguments =>
    "too many notify arguments (limit is " ++ toString argumentLimit ++ ")"
  | tooManyArguments => "too many arguments (limit is " ++ toString argumentLimit ++ ")"
  | notAssignable op => "'" ++ op.symbol ++ "=' is not an assignment operator"
  | notACall => "expression statement must be a call"
  | usedBeforeAssigned name => "'" ++ name ++ "' is used before being assigned"
  | sizeAssigned => "'size' cannot be assigned"
  | invalidTarget => "invalid assignment target"
  | unknownReference name => "unknown function '::" ++ name ++ "'"
  | unknownFunction name => "unknown function '" ++ name ++ "'"
  | builtinThread name => "builtin '" ++ name ++ "' cannot be called with 'thread'"
  | integerTooWide value =>
    "integer literal " ++ toString value ++ " does not fit in 32 bits"

def notes : Defect → List String
  | unknownFunction _ => ["functions from other scripts are called as path::name"]
  | _ => []

end Defect

structure Finding where
  defect : Defect
  span : Span
  deriving DecidableEq, Repr

end Gsc
