import Gsc.Host.Cache
import Mathlib.Data.Finmap

/-! # What a cache publishes

A `Ledger` is a plain account of a cache: the published values by name, the names in flight, and
the counters. A `Client` is any use of a cache, whose builds are clients themselves. A client cannot
tell a cache from a ledger, as long as no build waits for itself.
-/

namespace Gsc

variable {α σ β : Type}

/-! ## Ledgers -/

structure Ledger (α : Type) where
  published : Finmap fun _ : String => α
  inFlight : Finset String
  stats : CacheStats

namespace Ledger

def empty : Ledger α := ⟨∅, ∅, ⟨0, 0, 0, 0⟩⟩

def hit (r : Ledger α) : Ledger α :=
  { r with stats := { r.stats with hits := r.stats.hits + 1 } }

def begin (r : Ledger α) (name : String) : Ledger α where
  published := r.published
  inFlight := insert name r.inFlight
  stats := { r.stats with misses := r.stats.misses + 1, builds := r.stats.builds + 1 }

/-- Only a script that is wrong counts as a failure, not one that is missing. -/
def finish (r : Ledger α) (name : String) : Except LoadError α → Ledger α
  | .ok value =>
    { r with published := r.published.insert name value, inFlight := r.inFlight.erase name }
  | .error (.failed _) =>
    { r with
      inFlight := r.inFlight.erase name
      stats := { r.stats with failures := r.stats.failures + 1 } }
  | .error _ => { r with inFlight := r.inFlight.erase name }

@[simp] theorem inFlight_finish (r : Ledger α) (name : String) (result : Except LoadError α) :
    (r.finish name result).inFlight = r.inFlight.erase name := by
  rcases result with (_ | _ | _) | _ <;> rfl

theorem lookup_finish {r : Ledger α} {name : String} (h : r.published.lookup name = none)
    (result : Except LoadError α) (n : String) :
    (r.finish name result).published.lookup n
      = if n = name then result.toOption else r.published.lookup n := by
  by_cases hn : n = name
  · subst hn
    rcases result with (_ | _ | _) | _ <;> simp [finish, h, Except.toOption]
  · rcases result with (_ | _ | _) | _ <;> simp [finish, hn, Finmap.lookup_insert_of_ne]

theorem stats_finish (r : Ledger α) (name : String) (result : Except LoadError α) :
    (r.finish name result).stats.hits = r.stats.hits ∧
      (r.finish name result).stats.misses = r.stats.misses ∧
      (r.finish name result).stats.builds = r.stats.builds := by
  rcases result with (_ | _ | _) | _ <;> exact ⟨rfl, rfl, rfl⟩

end Ledger

/-! ## Clients -/

/-- A use of a cache that ends in a result. What it does next may depend on every answer, and in
between it may act on the world outside. -/
inductive Client (α σ : Type) : Type → Type 1 where
  | done {β : Type} (result : β) : Client α σ β
  | act {β γ : Type} (action : σ → γ × σ) (next : γ → Client α σ β) : Client α σ β
  | get? {β : Type} (name : String) (next : Option α → Client α σ β) : Client α σ β
  | contains {β : Type} (name : String) (next : Bool → Client α σ β) : Client α σ β
  | evict {β : Type} (name : String) (next : Bool → Client α σ β) : Client α σ β
  | clear {β : Type} (next : Client α σ β) : Client α σ β
  | size {β : Type} (next : Nat → Client α σ β) : Client α σ β
  | stats {β : Type} (next : CacheStats → Client α σ β) : Client α σ β
  | getOrBuild {β : Type} (name : String) (build : Client α σ (Except LoadError α))
      (next : Except LoadError α → Client α σ β) : Client α σ β

namespace Client

/-- What a client does with a cache. -/
def run {β : Type} : Client α σ β → Cache α → StateM σ (β × Cache α)
  | .done result, c => pure (result, c)
  | .act action next, c => do (next (← action)).run c
  | .get? name next, c => (next (c.get? name)).run c
  | .contains name next, c => (next (c.contains name)).run c
  | .evict name next, c => (next (c.evict name).1).run (c.evict name).2
  | .clear next, c => next.run c.clear
  | .size next, c => (next c.size).run c
  | .stats next, c => (next c.stats).run c
  | .getOrBuild name build next, c => do
    let (result, c) ← c.getOrBuild name build.run
    (next result).run c

/-- What a client is to get from a ledger; nothing if a build waits for itself. -/
def meant {β : Type} : Client α σ β → Ledger α → σ → Option (β × Ledger α × σ)
  | .done result, r, w => some (result, r, w)
  | .act action next, r, w => (next (action w).1).meant r (action w).2
  | .get? name next, r, w => (next (r.published.lookup name)).meant r w
  | .contains name next, r, w => (next (name ∈ r.published)).meant r w
  | .evict name next, r, w =>
    if name ∈ r.published then
      (next true).meant { r with published := r.published.erase name } w
    else (next false).meant r w
  | .clear next, r, w => next.meant { r with published := ∅ } w
  | .size next, r, w => (next r.published.keys.card).meant r w
  | .stats next, r, w => (next r.stats).meant r w
  | .getOrBuild name build next, r, w =>
    match r.published.lookup name with
    | some value => (next (.ok value)).meant r.hit w
    | none =>
      if name ∈ r.inFlight then none
      else
        match build.meant (r.begin name) w with
        | some (result, r, w) => (next result).meant (r.finish name result) w
        | none => none

end Client

/-! ## Slots of valid caches -/

namespace Cache

open Dictionary (mem_of_lookup lookup_of_mem lookup_filter)

/-- Every name has one slot, and every slot a serial of its own. -/
structure Valid (c : Cache α) : Prop where
  names : (c.slots.map (·.1)).Nodup
  serials : c.slots.Pairwise fun a b => a.2.serial ≠ b.2.serial
  fresh : ∀ entry ∈ c.slots, entry.2.serial < c.fresh

theorem lookup_update (c : Cache α) (serial : Nat) (f : Slot α → Slot α) (name : String) :
    (c.update serial f).slots.lookup name
      = (c.slots.lookup name).map fun slot => if slot.serial = serial then f slot else slot := by
  simp only [update]
  induction c.slots with
  | nil => rfl
  | cons entry rest ih =>
      obtain ⟨n, slot⟩ := entry
      by_cases hn : name = n
      · simp [hn]
      · have hb : (name == n) = false := beq_false_of_ne hn
        simp [List.lookup_cons, hb, ih]

namespace Valid

variable {c : Cache α}

theorem filter (h : c.Valid) (keep : String × Slot α → Bool) (stats : CacheStats) :
    Valid { c with slots := c.slots.filter keep, stats } where
  names := h.names.sublist (List.filter_sublist.map _)
  serials := h.serials.sublist List.filter_sublist
  fresh entry hentry := h.fresh entry (List.mem_of_mem_filter hentry)

theorem update (h : c.Valid) (serial : Nat) {f : Slot α → Slot α}
    (hf : ∀ slot, (f slot).serial = slot.serial) : (c.update serial f).Valid := by
  have hsame : ∀ slot : Slot α, (if slot.serial = serial then f slot else slot).serial
      = slot.serial := by
    intro slot
    split
    · exact hf slot
    · rfl
  constructor
  · simpa [Cache.update, List.map_map, Function.comp_def] using h.names
  · simpa [Cache.update, List.pairwise_map, hsame] using h.serials
  · intro entry hentry
    obtain ⟨old, hold, rfl⟩ := List.mem_map.1 hentry
    simpa [Cache.update, hsame] using h.fresh old hold

theorem serial_ne (h : c.Valid) {name other : String} {slot slot' : Slot α}
    (hslot : c.slots.lookup name = some slot) (hslot' : c.slots.lookup other = some slot')
    (hne : name ≠ other) : slot.serial ≠ slot'.serial := by
  have : Std.Symm fun a b : String × Slot α => a.2.serial ≠ b.2.serial := ⟨fun _ _ => Ne.symm⟩
  refine h.serials.forall (mem_of_lookup hslot) (mem_of_lookup hslot') ?_
  intro heq
  exact hne (congrArg Prod.fst heq)

/-- The slots of other names stay as they are. -/
theorem lookup_update_of_ne (h : c.Valid) {name other : String} {slot : Slot α}
    (hslot : c.slots.lookup name = some slot) (f : Slot α → Slot α) (hne : other ≠ name) :
    (c.update slot.serial f).slots.lookup other = c.slots.lookup other := by
  rw [lookup_update]
  cases hother : c.slots.lookup other with
  | none => rfl
  | some slot' =>
      have hserial : slot'.serial ≠ slot.serial := h.serial_ne hother hslot hne
      simp [hserial]

theorem start (h : c.Valid) (serial : Nat) : (c.start serial).Valid := by
  have hv := h.update serial (f := fun slot => { slot with locked := true }) (fun _ => rfl)
  exact ⟨hv.names, hv.serials, hv.fresh⟩

theorem settle (h : c.Valid) (name : String) (serial : Nat) (result : Except LoadError α) :
    (c.settle name serial result).Valid := by
  cases result with
  | ok value =>
      rw [Cache.settle]
      exact h.update serial fun _ => rfl
  | error e =>
      refine (h.update serial ?_).filter _ _
      exact fun _ => rfl

theorem lookup_settle (h : c.Valid) {name : String} {slot : Slot α}
    (hslot : c.slots.lookup name = some slot) (result : Except LoadError α) :
    (c.settle name slot.serial result).slots.lookup name
      = result.toOption.map fun value => ⟨slot.serial, false, .ready value⟩ := by
  cases result with
  | ok value =>
      rw [Cache.settle, lookup_update, hslot]
      simp [Except.toOption]
  | error e =>
      have hv := h.update slot.serial
        (f := fun slot => { slot with locked := false, state := .failed e }) (fun _ => rfl)
      simp only [Cache.settle]
      rw [lookup_filter hv.names, lookup_update, hslot]
      simp [Option.filter, Except.toOption]

theorem lookup_settle_of_ne (h : c.Valid) {name other : String} {slot : Slot α}
    (hslot : c.slots.lookup name = some slot) (result : Except LoadError α) (hne : other ≠ name) :
    (c.settle name slot.serial result).slots.lookup other = c.slots.lookup other := by
  cases result with
  | ok value => exact h.lookup_update_of_ne hslot _ hne
  | error e =>
      have hv := h.update slot.serial
        (f := fun slot => { slot with locked := false, state := .failed e }) (fun _ => rfl)
      simp only [Cache.settle]
      rw [lookup_filter hv.names, h.lookup_update_of_ne hslot _ hne]
      cases c.slots.lookup other <;> simp [Option.filter, hne]

end Valid

/-! ## The two ways to a value -/

theorem getOrBuild_of_ready {m : Type → Type} [Monad m] {c : Cache α} {name : String}
    {serial : Nat} {locked : Bool} {value : α}
    (h : c.slots.lookup name = some ⟨serial, locked, .ready value⟩)
    (build : Cache α → m (Except LoadError α × Cache α)) :
    c.getOrBuild name build
      = pure (.ok value, { c with stats := { c.stats with hits := c.stats.hits + 1 } }) := by
  simp only [getOrBuild, slotOf, h]

theorem getOrBuild_of_empty {m : Type → Type} [Monad m] {c c' : Cache α} {name : String}
    {serial : Nat} {locked : Bool} (h : c.slotOf name = (⟨serial, locked, .empty⟩, c'))
    (build : Cache α → m (Except LoadError α × Cache α)) :
    c.getOrBuild name build = do
      let (result, c) ← build (c'.start serial)
      return (result, c.settle name serial result) := by
  simp only [getOrBuild, h]

end Cache

/-! ## A cache and its ledger -/

/-- The three things a ledger can say about a name, and the slots that agree. -/
inductive Ledger.Accounts (r : Ledger α) (name : String) : Option (Slot α) → Prop
  | absent (hf : name ∉ r.inFlight) (hp : r.published.lookup name = none) : r.Accounts name none
  | building {serial : Nat} (hf : name ∈ r.inFlight) (hp : r.published.lookup name = none) :
      r.Accounts name (some ⟨serial, true, .empty⟩)
  | ready {serial : Nat} {value : α} (hf : name ∉ r.inFlight)
      (hp : r.published.lookup name = some value) :
      r.Accounts name (some ⟨serial, false, .ready value⟩)

/-- Ledgers that agree on a name account for the same slots of it. -/
theorem Ledger.Accounts.congr {r r' : Ledger α} {name : String} {slot : Option (Slot α)}
    (h : r.Accounts name slot) (hf : name ∈ r'.inFlight ↔ name ∈ r.inFlight)
    (hp : r'.published.lookup name = r.published.lookup name) : r'.Accounts name slot := by
  cases h with
  | absent hf' hp' => exact .absent (mt hf.1 hf') (hp.trans hp')
  | building hf' hp' => exact .building (hf.2 hf') (hp.trans hp')
  | ready hf' hp' => exact .ready (mt hf.1 hf') (hp.trans hp')

namespace Cache

open Dictionary (mem_of_lookup lookup_of_mem lookup_filter)

structure Represents (c : Cache α) (r : Ledger α) : Prop where
  valid : c.Valid
  slot : ∀ name, r.Accounts name (c.slots.lookup name)
  stats : c.stats = r.stats

/-- Slots that were locked are still there. -/
def Keeps (c c' : Cache α) : Prop :=
  ∀ name slot, slot.locked = true → c.slots.lookup name = some slot →
    c'.slots.lookup name = some slot

theorem Keeps.refl (c : Cache α) : c.Keeps c := fun _ _ _ h => h

theorem Keeps.trans {c c' c'' : Cache α} (h : c.Keeps c') (h' : c'.Keeps c'') : c.Keeps c'' :=
  fun name slot hl hs => h' name slot hl (h name slot hl hs)

theorem represents_empty : (empty : Cache α).Represents .empty :=
  ⟨⟨.nil, .nil, nofun⟩, fun _ => .absent (by simp [Ledger.empty]) (by simp [Ledger.empty]), rfl⟩

namespace Represents

variable {c : Cache α} {r : Ledger α}

theorem get?_eq (h : c.Represents r) (name : String) : c.get? name = r.published.lookup name := by
  have hslot := h.slot name
  unfold get?
  generalize c.slots.lookup name = slot? at hslot ⊢
  cases hslot with
  | absent hf hp => simp [hp]
  | building hf hp => simp [hp, Slot.value?]
  | ready hf hp => simp [hp, Slot.value?]

theorem contains_eq (h : c.Represents r) (name : String) :
    c.contains name = decide (name ∈ r.published) := by
  rw [contains, h.get?_eq, Bool.eq_iff_iff, Finmap.lookup_isSome, decide_eq_true_eq]

theorem any_isReady (h : c.Represents r) (name : String) :
    (c.slots.lookup name).any Slot.isReady = decide (name ∈ r.published) := by
  rw [← h.contains_eq, contains, get?]
  cases c.slots.lookup name with
  | none => rfl
  | some slot => rfl

theorem size_eq (h : c.Represents r) : c.size = r.published.keys.card := by
  have hnodup : ((c.slots.filter (·.2.isReady)).map (·.1)).Nodup :=
    h.valid.names.sublist (List.filter_sublist.map _)
  rw [size, ← List.length_map (f := (·.1)), ← List.toFinset_card_of_nodup hnodup]
  congr 1
  ext name
  rw [List.mem_toFinset, Finmap.mem_keys, ← decide_eq_true_iff (p := name ∈ r.published),
    ← h.any_isReady]
  constructor
  · intro hmem
    obtain ⟨⟨n, slot⟩, hentry, rfl⟩ := List.mem_map.1 hmem
    obtain ⟨hentry, hready⟩ := List.mem_filter.1 hentry
    rw [lookup_of_mem h.valid.names hentry]
    exact hready
  · intro hany
    cases hs : c.slots.lookup name with
    | none => simp [hs] at hany
    | some slot =>
        rw [hs] at hany
        exact List.mem_map.2 ⟨(name, slot), List.mem_filter.2 ⟨mem_of_lookup hs, hany⟩, rfl⟩

/-! ### Forgetting -/

theorem notMem_inFlight (h : c.Represents r) {name : String} (hp : name ∈ r.published) :
    name ∉ r.inFlight := by
  obtain ⟨value, hvalue⟩ := Finmap.mem_iff.1 hp
  have hslot := h.slot name
  generalize c.slots.lookup name = slot? at hslot
  cases hslot with
  | absent hf hq => exact hf
  | building hf hq => cases hq.symm.trans hvalue
  | ready hf hq => exact hf

theorem evict (h : c.Represents r) {name : String} (hp : name ∈ r.published) :
    (c.evict name).1 = true ∧ c.Keeps (c.evict name).2 ∧
      (c.evict name).2.Represents { r with published := r.published.erase name } := by
  have hlookup := lookup_filter h.valid.names (fun entry => decide (entry.1 ≠ name))
  simp only [Cache.evict, h.any_isReady, hp, decide_true, if_true, true_and]
  constructor
  · intro other slot hl hs
    have hne : other ≠ name := by
      rintro rfl
      have hslot := h.slot other
      rw [hs] at hslot
      cases hslot with
      | building hf hq => exact h.notMem_inFlight hp hf
      | ready hf hq => cases hl
    rw [hlookup, hs]
    simp [Option.filter, hne]
  · refine ⟨h.valid.filter _ _, fun other => ?_, h.stats⟩
    simp only [hlookup]
    by_cases hne : other = name
    · subst hne
      have hnone : (c.slots.lookup other).filter (fun _ => decide (other ≠ other)) = none := by
        cases c.slots.lookup other <;> simp [Option.filter]
      rw [hnone]
      exact .absent (h.notMem_inFlight hp) (Finmap.lookup_erase _ _)
    · have hkept : (c.slots.lookup other).filter (fun _ => decide (other ≠ name))
          = c.slots.lookup other := by
        cases c.slots.lookup other <;> simp [Option.filter, hne]
      rw [hkept]
      exact (h.slot other).congr Iff.rfl (Finmap.lookup_erase_ne hne)

theorem evict_of_notMem (h : c.Represents r) {name : String} (hp : name ∉ r.published) :
    c.evict name = (false, c) := by
  simp [Cache.evict, h.any_isReady, hp]

theorem clear (h : c.Represents r) :
    c.Keeps c.clear ∧ c.clear.Represents { r with published := ∅ } := by
  have hlookup := lookup_filter h.valid.names (fun entry => !entry.2.isReady)
  constructor
  · intro name slot hl hs
    have hready : slot.isReady = false := by
      obtain ⟨serial, locked, state⟩ := slot
      cases hl
      rfl
    simp [Cache.clear, hlookup, hs, hready, Option.filter]
  · refine ⟨h.valid.filter _ _, fun name => ?_, h.stats⟩
    have hslot := h.slot name
    simp only [Cache.clear, hlookup]
    generalize c.slots.lookup name = slot? at hslot ⊢
    cases hslot with
    | absent hf hp => exact .absent hf (Finmap.lookup_empty _)
    | building hf hp => exact .building hf (Finmap.lookup_empty _)
    | ready hf hp => exact .absent hf (Finmap.lookup_empty _)

/-! ### Building -/

theorem lookup_eq_none (h : c.Represents r) {name : String} (hf : name ∉ r.inFlight)
    (hp : r.published.lookup name = none) : c.slots.lookup name = none := by
  have hslot := h.slot name
  generalize c.slots.lookup name = slot? at hslot ⊢
  cases hslot with
  | absent _ _ => rfl
  | building hf' _ => exact (hf hf').elim
  | ready _ hp' => cases hp.symm.trans hp'

theorem lookup_eq_ready (h : c.Represents r) {name : String} {value : α}
    (hp : r.published.lookup name = some value) :
    ∃ serial, c.slots.lookup name = some ⟨serial, false, .ready value⟩ := by
  have hslot := h.slot name
  generalize c.slots.lookup name = slot? at hslot ⊢
  cases hslot with
  | absent _ hp' => cases hp.symm.trans hp'
  | building _ hp' => cases hp.symm.trans hp'
  | ready _ hp' =>
      cases hp.symm.trans hp'
      exact ⟨_, rfl⟩

theorem hit (h : c.Represents r) :
    { c with stats := { c.stats with hits := c.stats.hits + 1 } }.Represents r.hit :=
  ⟨⟨h.valid.names, h.valid.serials, h.valid.fresh⟩, fun name => (h.slot name).congr Iff.rfl rfl,
    by simp [Ledger.hit, h.stats]⟩

/-- A new slot is locked under a serial that no other slot has. -/
theorem start (h : c.Represents r) {name : String} (hf : name ∉ r.inFlight)
    (hp : r.published.lookup name = none) :
    ∃ c', c.slotOf name = (⟨c.fresh, false, .empty⟩, c') ∧ c.Keeps (c'.start c.fresh) ∧
      (c'.start c.fresh).slots.lookup name = some ⟨c.fresh, true, .empty⟩ ∧
      (c'.start c.fresh).Represents (r.begin name) := by
  have hnone := h.lookup_eq_none hf hp
  obtain ⟨c', hopen⟩ : ∃ c', c.slotOf name = (⟨c.fresh, false, .empty⟩, c') := by
    simp [slotOf, hnone]
  have hc' : { c with
      slots := (name, ⟨c.fresh, false, .empty⟩) :: c.slots, fresh := c.fresh + 1 } = c' := by
    simpa [slotOf, hnone] using hopen
  have hvalid : c'.Valid := by
    subst hc'
    refine ⟨List.nodup_cons.2 ⟨?_, h.valid.names⟩, .cons ?_ h.valid.serials, ?_⟩
    · intro hmem
      obtain ⟨⟨n, slot⟩, hentry, rfl⟩ := List.mem_map.1 hmem
      cases hnone.symm.trans (lookup_of_mem h.valid.names hentry)
    · intro entry hentry
      exact Nat.ne_of_gt (h.valid.fresh entry hentry)
    · intro entry hentry
      rcases List.mem_cons.1 hentry with rfl | hentry
      · exact Nat.lt_succ_self _
      · exact Nat.lt_succ_of_lt (h.valid.fresh entry hentry)
  have hnew : c'.slots.lookup name = some ⟨c.fresh, false, .empty⟩ := by simp [← hc']
  have hname : (c'.start c.fresh).slots.lookup name = some ⟨c.fresh, true, .empty⟩ := by
    rw [Cache.start, lookup_update]
    simp [hnew]
  have hother : ∀ other, other ≠ name →
      (c'.start c.fresh).slots.lookup other = c.slots.lookup other := by
    intro other hne
    rw [Cache.start, hvalid.lookup_update_of_ne hnew _ hne, ← hc', List.lookup_cons,
      beq_false_of_ne hne]
  refine ⟨c', hopen, ?_, hname, ?_, ?_, ?_⟩
  · intro other slot hl hs
    have hne : other ≠ name := by
      rintro rfl
      cases hnone.symm.trans hs
    rw [hother other hne, hs]
  · exact hvalid.start c.fresh
  · intro other
    by_cases hne : other = name
    · subst hne
      rw [hname]
      exact .building (Finset.mem_insert_self _ _) hp
    · rw [hother other hne]
      exact (h.slot other).congr (by simp [Ledger.begin, hne]) rfl
  · simp [Cache.start, Ledger.begin, h.stats, ← hc']

/-- A slot that is locked already is entered once more. -/
theorem restart (h : c.Represents r) {name : String} (hf : name ∈ r.inFlight) :
    ∃ serial, c.slotOf name = (⟨serial, true, .empty⟩, c) ∧
      (c.start serial).slots.lookup name = some ⟨serial, true, .empty⟩ ∧
      (c.start serial).Represents (r.begin name) := by
  obtain ⟨serial, hs⟩ : ∃ serial, c.slots.lookup name = some ⟨serial, true, .empty⟩ := by
    have hslot := h.slot name
    generalize c.slots.lookup name = slot? at hslot ⊢
    cases hslot with
    | absent hf' _ => exact (hf' hf).elim
    | building _ _ => exact ⟨_, rfl⟩
    | ready hf' _ => exact (hf' hf).elim
  have hsame : ∀ other, (c.start serial).slots.lookup other = c.slots.lookup other := by
    intro other
    by_cases hne : other = name
    · subst hne
      rw [Cache.start, lookup_update]
      simp [hs]
    · rw [Cache.start, h.valid.lookup_update_of_ne hs _ hne]
  refine ⟨serial, by simp [slotOf, hs], (hsame name).trans hs, h.valid.start serial,
    fun other => ?_, by simp [Cache.start, Ledger.begin, h.stats]⟩
  rw [hsame]
  exact (h.slot other).congr (by rw [Ledger.begin, Finset.insert_eq_of_mem hf]) rfl

/-- A name that is not published has a locked slot once its build has begun. -/
theorem enter (h : c.Represents r) {name : String} (hp : r.published.lookup name = none) :
    ∃ serial locked c', c.slotOf name = (⟨serial, locked, .empty⟩, c') ∧
      (c'.start serial).slots.lookup name = some ⟨serial, true, .empty⟩ ∧
      (c'.start serial).Represents (r.begin name) := by
  by_cases hf : name ∈ r.inFlight
  · obtain ⟨serial, hopen, hlocked, hrep⟩ := h.restart hf
    exact ⟨serial, true, c, hopen, hlocked, hrep⟩
  · obtain ⟨c', hopen, -, hlocked, hrep⟩ := h.start hf hp
    exact ⟨c.fresh, false, c', hopen, hlocked, hrep⟩

/-- A locked slot takes the result of its build, or is gone. -/
theorem settle (h : c.Represents r) {name : String} {serial : Nat}
    (hs : c.slots.lookup name = some ⟨serial, true, .empty⟩) (result : Except LoadError α) :
    (c.settle name serial result).Represents (r.finish name result) ∧
      ∀ other, other ≠ name →
        (c.settle name serial result).slots.lookup other = c.slots.lookup other := by
  have hother := fun other (hne : other ≠ name) => h.valid.lookup_settle_of_ne hs result hne
  have hslot := h.slot name
  rw [hs] at hslot
  cases hslot with
  | building hf hp =>
      refine ⟨⟨h.valid.settle name serial result, fun other => ?_, ?_⟩, hother⟩
      · by_cases hne : other = name
        · subst hne
          have hfound := Ledger.lookup_finish hp result other
          rw [if_pos rfl] at hfound
          rw [h.valid.lookup_settle hs]
          cases result with
          | ok value => exact .ready (by simp) hfound
          | error e => exact .absent (by simp) hfound
        · rw [hother other hne]
          exact (h.slot other).congr (by simp [hne]) (by rw [Ledger.lookup_finish hp, if_neg hne])
      · rcases result with (_ | _ | _) | _ <;>
          simp [Ledger.finish, Cache.settle, LoadError.isNotHandled, Cache.update, h.stats]

end Represents

end Cache

/-! ## Clients cannot tell -/

/-- Whatever a client does from a cache that a ledger describes, it gets the results that are
meant, and the cache it leaves is described by the ledger it is meant to leave. -/
theorem Client.run_of_represents {client : Client α σ β} {c : Cache α} {r r' : Ledger α}
    {w w' : σ} {result : β} (h : c.Represents r)
    (hm : client.meant r w = some (result, r', w')) :
    ∃ c', (client.run c).run w = ((result, c'), w') ∧ c'.Represents r' ∧ c.Keeps c' := by
  induction client generalizing c r w r' w' with
  | done b =>
      cases hm
      exact ⟨c, rfl, h, .refl c⟩
  | act action next ih => exact ih _ h hm
  | get? name next ih =>
      simp only [run, h.get?_eq]
      exact ih _ h hm
  | contains name next ih =>
      simp only [run, h.contains_eq]
      exact ih _ h hm
  | evict name next ih =>
      simp only [run]
      rw [meant] at hm
      by_cases hp : name ∈ r.published
      · rw [if_pos hp] at hm
        obtain ⟨htrue, hkeeps, hnext⟩ := h.evict hp
        obtain ⟨c', hrun, hrep, hkeeps'⟩ := ih _ hnext hm
        rw [htrue]
        exact ⟨c', hrun, hrep, hkeeps.trans hkeeps'⟩
      · rw [if_neg hp] at hm
        rw [h.evict_of_notMem hp]
        exact ih _ h hm
  | clear next ih =>
      obtain ⟨hkeeps, hnext⟩ := h.clear
      obtain ⟨c', hrun, hrep, hkeeps'⟩ := ih hnext hm
      exact ⟨c', hrun, hrep, hkeeps.trans hkeeps'⟩
  | size next ih =>
      simp only [run, h.size_eq]
      exact ih _ h hm
  | stats next ih =>
      simp only [run, h.stats]
      exact ih _ h hm
  | getOrBuild name build next ihBuild ih =>
      rw [meant] at hm
      cases hp : r.published.lookup name with
      | some value =>
          simp only [hp] at hm
          obtain ⟨serial, hs⟩ := h.lookup_eq_ready hp
          obtain ⟨c', hrun, hrep, hkeeps⟩ := ih _ h.hit hm
          refine ⟨c', ?_, hrep, fun n slot hl hs => hkeeps n slot hl hs⟩
          rw [run, Cache.getOrBuild_of_ready hs]
          exact hrun
      | none =>
          simp only [hp] at hm
          split at hm
          · cases hm
          · rename_i hf
            cases hb : build.meant (r.begin name) w with
            | none =>
                rw [hb] at hm
                cases hm
            | some found =>
                obtain ⟨built, r₁, w₁⟩ := found
                simp only [hb] at hm
                obtain ⟨c₀, hopen, hkeeps₀, hlocked, hrep₀⟩ := h.start hf hp
                obtain ⟨c₁, hrun₁, hrep₁, hkeeps₁⟩ := ihBuild hrep₀ hb
                obtain ⟨hrep₂, hother⟩ := hrep₁.settle (hkeeps₁ _ _ rfl hlocked) built
                obtain ⟨c', hrun, hrep, hkeeps⟩ := ih _ hrep₂ hm
                refine ⟨c', ?_, hrep, ?_⟩
                · rw [run, Cache.getOrBuild_of_empty hopen]
                  simp only [StateT.run_bind, hrun₁]
                  exact hrun
                · intro other slot hl hs
                  have hne : other ≠ name := by
                    rintro rfl
                    cases (h.lookup_eq_none hf hp).symm.trans hs
                  refine hkeeps other slot hl ?_
                  rw [hother other hne]
                  exact hkeeps₁ other slot hl (hkeeps₀ other slot hl hs)

/-- A client that starts with an empty cache gets exactly the results that are meant. -/
theorem Client.run_eq_meant {client : Client α σ β} {w w' : σ} {result : β} {r : Ledger α}
    (h : client.meant .empty w = some (result, r, w')) :
    ∃ c : Cache α, (client.run .empty).run w = ((result, c), w') ∧ c.Represents r := by
  obtain ⟨c, hrun, hrep, -⟩ := run_of_represents Cache.represents_empty h
  exact ⟨c, hrun, hrep⟩

/-- Inside the build of `a`, another build comes and goes, one fails, and all is evicted and
cleared; `a` is published all the same. The world counts the builds that ran. -/
def buildWithinBuild :
    Client Nat Nat (Option Nat × Bool × Nat × Except LoadError Nat × CacheStats) :=
  .getOrBuild "a"
    (.act (fun w => ((), w + 1)) fun _ =>
      .getOrBuild "b" (.act (fun w => ((), w + 1)) fun _ => .done (.ok 2)) fun _ =>
      .getOrBuild "c" (.evict "b" fun _ => .done (.error (.failed ⟨"c", .compile, ""⟩))) fun _ =>
      .evict "a" fun _ => .clear (.done (.ok 1))) fun _ =>
  .getOrBuild "a" (.act (fun w => ((), w + 1)) fun _ => .done (.ok 3)) fun again =>
  .get? "a" fun a => .contains "b" fun b => .size fun n => .stats fun stats =>
  .done (a, b, n, again, stats)

theorem buildWithinBuild_results :
    ∃ (c : Cache Nat) (r : Ledger Nat),
      buildWithinBuild.meant .empty 0 = some ((some 1, false, 1, .ok 1, ⟨1, 3, 3, 1⟩), r, 2) ∧
        (buildWithinBuild.run .empty).run 0 = (((some 1, false, 1, .ok 1, ⟨1, 3, 3, 1⟩), c), 2) ∧
        c.Represents r := by
  obtain ⟨r, hr⟩ : ∃ r, buildWithinBuild.meant .empty 0
      = some ((some 1, false, 1, .ok 1, ⟨1, 3, 3, 1⟩), r, 2) := ⟨_, rfl⟩
  obtain ⟨c, hc⟩ := Client.run_eq_meant hr
  exact ⟨c, r, hr, hc⟩

end Gsc
