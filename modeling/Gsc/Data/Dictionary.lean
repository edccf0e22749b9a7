/-! # Dictionaries

A dictionary keeps values under keys, each key once. What is put in last stands first.
-/

namespace Gsc

structure Dictionary (κ ν : Type) where
  entries : List (κ × ν)
  distinct : (entries.map (·.1)).Nodup
  deriving DecidableEq

namespace Dictionary

variable {κ ν : Type}

def empty : Dictionary κ ν := ⟨[], .nil⟩

def size (d : Dictionary κ ν) : Nat := d.entries.length

def isEmpty (d : Dictionary κ ν) : Bool := d.entries.isEmpty

variable [DecidableEq κ]

def get? (d : Dictionary κ ν) (key : κ) : Option ν := d.entries.lookup key

def erase (d : Dictionary κ ν) (key : κ) : Dictionary κ ν where
  entries := d.entries.filter (·.1 ≠ key)
  distinct := d.distinct.sublist (List.filter_sublist.map _)

theorem not_mem_keys_erase (d : Dictionary κ ν) (key : κ) :
    key ∉ (d.erase key).entries.map (·.1) := by
  intro h
  obtain ⟨entry, hentry, hkey⟩ := List.mem_map.1 h
  have hne := (List.mem_filter.1 hentry).2
  simp [hkey] at hne

def insert (d : Dictionary κ ν) (key : κ) (value : ν) : Dictionary κ ν where
  entries := (key, value) :: (d.erase key).entries
  distinct := List.nodup_cons.2 ⟨d.not_mem_keys_erase key, (d.erase key).distinct⟩

/-! ## Looking up -/

section

variable {entries : List (κ × ν)} {key : κ} {value : ν}

theorem mem_of_lookup (h : entries.lookup key = some value) : (key, value) ∈ entries := by
  obtain ⟨front, back, heq, -⟩ := List.lookup_eq_some_iff.1 h
  simp [heq]

theorem lookup_of_mem (h : (entries.map (·.1)).Nodup) (hmem : (key, value) ∈ entries) :
    entries.lookup key = some value := by
  induction entries with
  | nil => cases hmem
  | cons entry rest ih =>
      rw [List.map_cons, List.nodup_cons] at h
      rcases List.mem_cons.1 hmem with rfl | hrest
      · simp
      · have hne : key ≠ entry.1 := by
          intro heq
          exact h.1 (heq ▸ List.mem_map_of_mem (f := (·.1)) hrest)
        rw [List.lookup_cons, beq_false_of_ne hne]
        exact ih h.2 hrest

theorem lookup_filter (h : (entries.map (·.1)).Nodup) (keep : κ × ν → Bool) (key : κ) :
    (entries.filter keep).lookup key = (entries.lookup key).filter fun v => keep (key, v) := by
  induction entries with
  | nil => rfl
  | cons entry rest ih =>
      obtain ⟨k, v⟩ := entry
      rw [List.map_cons, List.nodup_cons] at h
      by_cases hk : key = k
      · subst hk
        have habsent : (rest.filter keep).lookup key = none := by
          rw [List.lookup_eq_none_iff]
          intro other hother
          have hmem := List.mem_map_of_mem (f := (·.1)) (List.mem_filter.1 hother).1
          simp only [bne_iff_ne, ne_eq]
          intro heq
          exact h.1 (heq ▸ hmem)
        by_cases hkeep : keep (key, v) = true
        · simp [hkeep, Option.filter]
        · simp [hkeep, Option.filter, habsent]
      · have hb : (key == k) = false := beq_false_of_ne hk
        by_cases hkeep : keep (k, v) = true
        · simp [hkeep, List.lookup_cons, hb, ih h.2]
        · simp [hkeep, List.lookup_cons, hb, ih h.2]

end

@[simp] theorem get?_empty (key : κ) : (empty : Dictionary κ ν).get? key = none := rfl

theorem mem_entries_iff {d : Dictionary κ ν} {key : κ} {value : ν} :
    (key, value) ∈ d.entries ↔ d.get? key = some value :=
  ⟨lookup_of_mem d.distinct, mem_of_lookup⟩

theorem get?_erase (d : Dictionary κ ν) (key k : κ) :
    (d.erase key).get? k = if k = key then none else d.get? k := by
  rw [get?, erase, lookup_filter d.distinct, get?]
  by_cases hk : k = key
  · cases d.entries.lookup k <;> simp [hk, Option.filter]
  · cases d.entries.lookup k <;> simp [hk, Option.filter]

theorem get?_insert (d : Dictionary κ ν) (key : κ) (value : ν) (k : κ) :
    (d.insert key value).get? k = if k = key then some value else d.get? k := by
  rw [get?, insert, List.lookup_cons]
  by_cases hk : k = key
  · simp [hk]
  · rw [beq_false_of_ne hk, if_neg hk]
    exact (d.get?_erase key k).trans (if_neg hk)

/-- A new key goes in front of all others. -/
theorem entries_insert {d : Dictionary κ ν} {key : κ} (h : d.get? key = none) (value : ν) :
    (d.insert key value).entries = (key, value) :: d.entries := by
  have hkeep : ∀ entry ∈ d.entries, decide (entry.1 ≠ key) = true := by
    intro entry hentry
    have hne := bne_iff_ne.1 (List.lookup_eq_none_iff.1 h entry hentry)
    exact decide_eq_true hne.symm
  exact congrArg ((key, value) :: ·) (List.filter_eq_self.2 hkeep)

end Dictionary

end Gsc
