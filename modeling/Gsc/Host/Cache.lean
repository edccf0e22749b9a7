import Gsc.Build
import Gsc.Naming.Identifier

/-! # Artifact cache

A cache keeps what was built for a name. While a build runs, its name has a slot that nobody else
sees, and the build may use the cache itself.
-/

namespace Gsc

structure LoadFailure where
  name : String
  stage : Stage
  message : String
  deriving DecidableEq, Repr

def LoadFailure.text (f : LoadFailure) : String :=
  "Failed to compile '" ++ f.name ++ "'.\n" ++ f.message

inductive LoadError where
  | resolve (error : ResolveError)
  | sourceNotFound (name : String)
  | failed (failure : LoadFailure)
  deriving DecidableEq, Repr

namespace LoadError

def message : LoadError → String
  | resolve error => error.message
  | sourceNotFound name => "no source for script '" ++ name ++ "'"
  | failed failure => failure.text

/-- Whether the script may still be loaded in another way. -/
def isNotHandled : LoadError → Bool
  | failed _ => false
  | _ => true

end LoadError

inductive SlotState (α : Type) where
  | empty
  | ready (value : α)
  | failed (error : LoadError)
  deriving DecidableEq, Repr

/-- The place of a name in a cache. The serial tells it from other slots of that name, and it is
locked as long as its build runs. -/
structure Slot (α : Type) where
  serial : Nat
  locked : Bool
  state : SlotState α
  deriving DecidableEq, Repr

/-- How often a cache was asked, and with what result. -/
structure CacheStats where
  hits : Nat
  misses : Nat
  builds : Nat
  failures : Nat
  deriving DecidableEq, Repr

structure Cache (α : Type) where
  slots : List (String × Slot α)
  /-- The serial of the next slot. -/
  fresh : Nat
  stats : CacheStats
  deriving DecidableEq, Repr

/-- What is ready in a slot. A locked slot does not show what it holds. -/
def Slot.value? {α : Type} : Slot α → Option α
  | ⟨_, false, .ready value⟩ => some value
  | _ => none

def Slot.isReady {α : Type} (slot : Slot α) : Bool := slot.value?.isSome

namespace Cache

variable {α : Type}

def empty : Cache α := ⟨[], 0, ⟨0, 0, 0, 0⟩⟩

def get? (c : Cache α) (name : String) : Option α := (c.slots.lookup name).bind Slot.value?

def contains (c : Cache α) (name : String) : Bool := (c.get? name).isSome

def size (c : Cache α) : Nat := (c.slots.filter (·.2.isReady)).length

/-- Forget a name. One that is being built stays. -/
def evict (c : Cache α) (name : String) : Bool × Cache α :=
  if (c.slots.lookup name).any Slot.isReady then
    (true, { c with slots := c.slots.filter (·.1 ≠ name) })
  else (false, c)

def clear (c : Cache α) : Cache α := { c with slots := c.slots.filter (!·.2.isReady) }

/-- The slot of a name, which is a new one if the name has none. -/
def slotOf (c : Cache α) (name : String) : Slot α × Cache α :=
  match c.slots.lookup name with
  | some slot => (slot, c)
  | none =>
    let slot : Slot α := ⟨c.fresh, false, .empty⟩
    (slot, { c with slots := (name, slot) :: c.slots, fresh := c.fresh + 1 })

/-- Change the slot with a serial, if it is still there. -/
def update (c : Cache α) (serial : Nat) (f : Slot α → Slot α) : Cache α :=
  { c with slots := c.slots.map fun (n, s) => (n, if s.serial = serial then f s else s) }

def start (c : Cache α) (serial : Nat) : Cache α :=
  { c.update serial ({ · with locked := true }) with
    stats := { c.stats with misses := c.stats.misses + 1, builds := c.stats.builds + 1 } }

/-- A build ends. One that failed takes its slot with it, but no later slot of the name. -/
def settle (c : Cache α) (name : String) (serial : Nat) : Except LoadError α → Cache α
  | .ok value => c.update serial ({ · with locked := false, state := .ready value })
  | .error e =>
    let c := c.update serial ({ · with locked := false, state := .failed e })
    { c with
      slots := c.slots.filter fun (n, s) => ¬ (n = name ∧ s.serial = serial)
      stats :=
        if e.isNotHandled then c.stats else { c.stats with failures := c.stats.failures + 1 } }

/-- What is ready for a name, or else what a build gives. The build must not ask for the same name:
it would wait for itself. -/
def getOrBuild [Monad m] (c : Cache α) (name : String)
    (build : Cache α → m (Except LoadError α × Cache α)) : m (Except LoadError α × Cache α) :=
  let (slot, c) := c.slotOf name
  match slot.state with
  | .ready value => pure (.ok value, { c with stats := { c.stats with hits := c.stats.hits + 1 } })
  | .failed e => pure (.error e, c)
  | .empty => do
    let (result, c) ← build (c.start slot.serial)
    return (result, c.settle name slot.serial result)

end Cache

end Gsc
