/-! # TOML values

A document is a tree of tables. How a table came about decides who may add to it later.
-/

namespace Gsc.Toml

/-- What made a table: its own header, the header of a table below it, a dotted key, or braces. -/
inductive Origin where
  | header
  | implied
  | dotted
  | braces
  deriving DecidableEq, Repr

/-- A value. Numbers with a fraction or an exponent are kept as they are written, and points in
time in one form: a `T` between date and time, and no zeros at the end of a fraction. -/
inductive Value where
  | text (s : String)
  | int (n : Int)
  | float (literal : String)
  | bool (b : Bool)
  | moment (form : String)
  | list (items : List Value)
  | table (origin : Origin) (entries : List (String × Value))
  | tables (items : List (List (String × Value)))

abbrev Entries := List (String × Value)

inductive Error where
  | unreadable (line : Nat)
  | redefined (key : String)
  | missing (key : String)
  | unknown (key : String)
  | mistyped (key expected : String)
  deriving DecidableEq, Repr

def Error.message : Error → String
  | unreadable line => "TOML parse error at line " ++ toString line
  | redefined key => "duplicate key '" ++ key ++ "'"
  | missing key => "missing field '" ++ key ++ "'"
  | unknown key => "unknown field '" ++ key ++ "'"
  | mistyped key expected => "invalid value for '" ++ key ++ "', expected " ++ expected

def Entries.set (key : String) (value : Value) : Entries → Entries
  | [] => []
  | (k, v) :: rest => if k = key then (k, value) :: rest else (k, v) :: Entries.set key value rest

/-- Act on the table at a path below a table of the given origin. Tables on the way are made as
needed. A dotted path does not pass a table that has a header of its own, and no path enters a
value. -/
def Entries.descend (dotted : Bool) (act : Origin → Entries → Except Error Entries) :
    List String → Origin → Entries → Except Error Entries
  | [], origin, entries => act origin entries
  | key :: path, _, entries =>
    match entries.lookup key with
    | none =>
      let origin : Origin := if dotted then .dotted else .implied
      (Entries.descend dotted act path origin []).map fun sub =>
        entries ++ [(key, .table origin sub)]
    | some (.table origin sub) =>
      if origin = .braces ∨ (dotted ∧ origin = .header) then .error (.redefined key)
      else (Entries.descend dotted act path origin sub).map fun sub =>
        Entries.set key (.table origin sub) entries
    | some (.tables items) =>
      (Entries.descend dotted act path .header (items.getLast?.getD [])).map fun sub =>
        Entries.set key (.tables (items.dropLast ++ [sub])) entries
    | some _ => .error (.redefined key)

/-- Give a new key its value. The table of a dotted key has to come from dotted keys alone. -/
def Entries.assign (path : List String) (value : Value) :
    Origin → Entries → Except Error Entries :=
  let key := path.getLast?.getD ""
  Entries.descend true
    (fun origin entries =>
      if (origin = .dotted) ≠ (1 < path.length) then .error (.redefined key)
      else if (entries.lookup key).isSome then .error (.redefined key)
      else .ok (entries ++ [(key, value)]))
    path.dropLast

/-- Open the table of a header. A table that was only implied so far may still get its header. -/
def Entries.openTable (path : List String) (root : Entries) : Except Error Entries :=
  let key := path.getLast?.getD ""
  Entries.descend false
    (fun _ entries =>
      match entries.lookup key with
      | none => .ok (entries ++ [(key, .table .header [])])
      | some (.table .implied sub) => .ok (Entries.set key (.table .header sub) entries)
      | some _ => .error (.redefined key))
    path.dropLast .header root

def Entries.openItem (path : List String) (root : Entries) : Except Error Entries :=
  let key := path.getLast?.getD ""
  Entries.descend false
    (fun _ entries =>
      match entries.lookup key with
      | none => .ok (entries ++ [(key, .tables [[]])])
      | some (.tables items) => .ok (Entries.set key (.tables (items ++ [[]])) entries)
      | some _ => .error (.redefined key))
    path.dropLast .header root

end Gsc.Toml
