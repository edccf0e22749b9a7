/-! # Command lines

A program has commands, each with options and words. Options that all commands share may stand in
front of the command or behind it.
-/

namespace Gsc.Cli

/-- How often an option may be given, and whether it takes a value. -/
inductive Arity where
  | flag
  | single
  | many
  deriving DecidableEq, Repr

/-- An option with its names. The value of a path option is not empty. -/
structure OptionSpec where
  long : String
  short : Option Char
  arity : Arity
  isPath : Bool
  required : Bool
  deriving DecidableEq, Repr

/-- A command with its options and the number of words it takes. -/
structure CommandSpec where
  name : String
  options : List OptionSpec
  least : Nat
  most : Option Nat
  paths : Bool
  deriving DecidableEq, Repr

structure ProgramSpec where
  name : String
  globals : List OptionSpec
  commands : List CommandSpec
  deriving DecidableEq, Repr

inductive Stop where
  | usage
  | help
  | version
  deriving DecidableEq, Repr

/-- What was given: values by the long name of their option, and words. -/
structure Matches where
  values : List (String × String)
  words : List String
  deriving DecidableEq, Repr

namespace Matches

def empty : Matches := ⟨[], []⟩

def has (m : Matches) (long : String) : Bool := m.values.any (·.1 = long)

def all (m : Matches) (long : String) : List String :=
  (m.values.filter (·.1 = long)).map (·.2)

def value? (m : Matches) (long : String) : Option String := m.values.lookup long

def give (m : Matches) (spec : OptionSpec) (value : String) : Except Stop Matches :=
  if spec.arity ≠ .many ∧ m.has spec.long then .error .usage
  else if spec.isPath ∧ value.isEmpty then .error .usage
  else .ok { m with values := m.values ++ [(spec.long, value)] }

/-- Read short options written as one. The last one may still want its value. -/
def readShort (specs : List OptionSpec) (inFront : Bool) :
    Matches → List Char → Except Stop (Matches × Option OptionSpec)
  | m, [] => .ok (m, none)
  | m, c :: rest =>
    match specs.find? (·.short = some c) with
    | none =>
      .error (if c = 'h' then .help else if c = 'V' ∧ inFront then .version else .usage)
    | some spec =>
      if spec.arity = .flag then
        match m.give spec "" with
        | .ok m => readShort specs inFront m rest
        | .error e => .error e
      else
        match rest with
        | [] => .ok (m, some spec)
        | '=' :: value => (m.give spec (String.ofList value)).map (·, none)
        | value => (m.give spec (String.ofList value)).map (·, none)

/-- Read a long option, with its value behind `=` or still to come. -/
def readLong (specs : List OptionSpec) (inFront : Bool) (m : Matches) (text : List Char) :
    Except Stop (Matches × Option OptionSpec) :=
  let name := String.ofList (text.takeWhile (· ≠ '='))
  let value := text.drop (name.length + 1)
  let hasValue := text.contains '='
  match specs.find? (·.long = name) with
  | none =>
    .error (if hasValue then .usage else if name = "help" then .help
      else if name = "version" ∧ inFront then .version else .usage)
  | some spec =>
    if spec.arity = .flag then
      if hasValue then .error .usage else (m.give spec "").map (·, none)
    else if hasValue then (m.give spec (String.ofList value)).map (·, none)
    else .ok (m, some spec)

def isOption (arg : String) : Bool := arg.toList.head? = some '-' && arg ≠ "-"

/-- Take a word of a command. There may be one too many, and a path is not empty. -/
def addWord (c : CommandSpec) (m : Matches) (word : String) : Except Stop Matches :=
  if c.most.any (fun most => decide (most ≤ m.words.length)) ∨ (c.paths ∧ word.isEmpty) then
    .error .usage
  else .ok { m with words := m.words ++ [word] }

/-- Read the arguments of a command, or those in front of it, where the first word ends the
reading. -/
def read (specs : List OptionSpec) (command : Option CommandSpec) :
    Matches → List String → Except Stop (Matches × List String)
  | m, [] => .ok (m, [])
  | m, arg :: rest =>
    if arg = "--" then
      match command with
      | none => .error .usage
      | some c => (rest.foldlM (addWord c) m).map (·, [])
    else if isOption arg then
      let found := match arg.toList with
        | '-' :: '-' :: text => readLong specs command.isNone m text
        | text => readShort specs command.isNone m text.tail
      match found with
      | .error e => .error e
      | .ok (m, none) => read specs command m rest
      | .ok (m, some spec) =>
        match rest with
        | [] => .error .usage
        | value :: rest =>
          if isOption value then .error .usage
          else
            match m.give spec value with
            | .ok m => read specs command m rest
            | .error e => .error e
    else
      match command with
      | none => .ok (m, arg :: rest)
      | some c =>
        match addWord c m arg with
        | .ok m => read specs command m rest
        | .error e => .error e

end Matches

def CommandSpec.accepts (c : CommandSpec) (m : Matches) : Bool :=
  c.options.all (fun o => !o.required || m.has o.long) && c.least ≤ m.words.length

/-- Shared options behind the command replace those in front of it. -/
def mergeGlobals (globals : List OptionSpec) (front behind : Matches) : Matches :=
  let kept := front.values.filter fun (long, _) =>
    globals.any (·.long = long) && !behind.has long
  { behind with values := kept ++ behind.values }

def helpCommand : String := "help"

/-- What is shown for words behind the help command: help on the program or on one command. -/
def ProgramSpec.helpOn (p : ProgramSpec) : List String → Stop
  | [] => .help
  | [name] => if name = helpCommand ∨ p.commands.any (·.name = name) then .help else .usage
  | _ => .usage

def ProgramSpec.parse (p : ProgramSpec) (args : List String) :
    Except Stop (CommandSpec × Matches) := do
  let (front, rest) ← Matches.read p.globals none .empty args
  match rest with
  | [] => throw .usage
  | name :: rest =>
    match p.commands.find? (·.name = name) with
    | none => throw (if name = helpCommand then p.helpOn rest else .usage)
    | some command =>
      let (behind, _) ← Matches.read (p.globals ++ command.options) (some command) .empty rest
      if command.accepts behind then return (command, mergeGlobals p.globals front behind)
      else throw .usage

end Gsc.Cli
