import Gsc.Naming.TokenTable
import Gsc.Text.Basic

/-! # Script identifiers

A script is asked for by name or by number. A number is looked up in a token table, anything else
is the name itself.
-/

namespace Gsc

/-- What a script is asked for by: the text itself, and its value if it is a number. -/
structure Identifier where
  name : String
  token : Option Int
  deriving DecidableEq, Repr

namespace Identifier

def digits? : List Char → Option Nat
  | [] => none
  | chars =>
    if chars.all Char.isDigit then
      some (chars.foldl (fun value c => 10 * value + (c.toNat - '0'.toNat)) 0)
    else none

def integer? : List Char → Option Int
  | '-' :: rest => (digits? rest).map fun n : Nat => -(n : Int)
  | '+' :: rest => (digits? rest).map Int.ofNat
  | chars => (digits? chars).map Int.ofNat

/-- A number counts only if it fits a signed word of 64 bits. -/
def inWord (n : Int) : Bool := -9223372036854775808 ≤ n ∧ n ≤ 9223372036854775807

/-- White space around a number does not count. -/
def parse (name : String) : Identifier :=
  ⟨name, (integer? (Text.trim name.toList)).filter inWord⟩

end Identifier

inductive ResolveError where
  | unknownToken (token : Int)
  deriving DecidableEq, Repr

def ResolveError.message : ResolveError → String
  | unknownToken token => "unknown script token " ++ toString token

def resolve (identifier : Identifier) (table : TokenTable) : Except ResolveError String :=
  match identifier.token with
  | none => .ok identifier.name
  | some token =>
    if 0 ≤ token ∧ token ≤ 4294967295 then
      match table.name? token.toNat.toUInt32 with
      | some name => .ok name
      | none => .error (.unknownToken token)
    else .error (.unknownToken token)

end Gsc
