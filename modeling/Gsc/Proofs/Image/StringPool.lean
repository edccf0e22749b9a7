import Gsc.Image.StringPool
import Gsc.Proofs.Utf8

/-! # Strings in a pool

A pool stands for a list of different strings: its buffer is their bytes one behind the other, and
its dictionary knows where each of them begins. Every call keeps it so. A string keeps its place
while the pool grows.
-/

namespace Gsc

theorem Utf8.length_ofString (s : String) : (Utf8.ofString s).length = s.utf8ByteSize := by
  rw [Utf8.ofString, Utf8.encode, String.utf8ByteSize, ← String.utf8Encode_toList, List.utf8Encode]
  simp

namespace StringPool

/-! ## Lists of strings -/

def sizeOf : List String → Nat
  | [] => 0
  | s :: rest => s.utf8ByteSize + 1 + sizeOf rest

def place? : List String → String → Option Nat
  | [], _ => none
  | t :: rest, s => if t = s then some 0 else (place? rest s).map (t.utf8ByteSize + 1 + ·)

theorem place?_append {strings : List String} {s : String} {place : Nat}
    (h : place? strings s = some place) (more : List String) :
    place? (strings ++ more) s = some place := by
  induction strings generalizing place with
  | nil => cases h
  | cons t rest ih =>
      simp only [List.cons_append, place?] at h ⊢
      split at h
      · rw [if_pos ‹_›]
        exact h
      · rw [if_neg ‹_›]
        obtain ⟨p, hp, rfl⟩ := Option.map_eq_some_iff.1 h
        rw [ih hp]
        rfl

theorem place?_eq_none_iff {strings : List String} {s : String} :
    place? strings s = none ↔ s ∉ strings := by
  induction strings with
  | nil => simp [place?]
  | cons t rest ih =>
      unfold place?
      by_cases h : t = s
      · simp [h]
      · simp [h, Ne.symm h, ih]

/-- A new string goes behind all others. -/
theorem place?_append_self {strings : List String} {s : String} (h : place? strings s = none) :
    place? (strings ++ [s]) s = some (sizeOf strings) := by
  induction strings with
  | nil => simp [place?, sizeOf]
  | cons t rest ih =>
      simp only [place?] at h
      split at h
      · cases h
      · rw [List.cons_append, place?, if_neg ‹_›, ih (Option.map_eq_none_iff.1 h)]
        simp [sizeOf]

theorem sizeOf_append (front back : List String) :
    sizeOf (front ++ back) = sizeOf front + sizeOf back := by
  induction front with
  | nil => simp [sizeOf]
  | cons s front ih =>
      simp only [List.cons_append, sizeOf, ih]
      omega

/-- A place is the size of the strings in front of it. -/
theorem eq_append_of_place? {strings : List String} {s : String} {place : Nat}
    (h : place? strings s = some place) :
    ∃ front back, strings = front ++ s :: back ∧ sizeOf front = place := by
  induction strings generalizing place with
  | nil => cases h
  | cons t rest ih =>
      simp only [place?] at h
      split at h
      · rename_i ht
        cases h
        exact ⟨[], rest, by rw [ht]; rfl, rfl⟩
      · obtain ⟨p, hp, rfl⟩ := Option.map_eq_some_iff.1 h
        obtain ⟨front, back, hr, hs⟩ := ih hp
        exact ⟨t :: front, back, by rw [hr]; rfl, by rw [sizeOf, hs]⟩

theorem mem_of_place? {strings : List String} {s : String} {place : Nat}
    (h : place? strings s = some place) : s ∈ strings := by
  obtain ⟨front, back, rfl, -⟩ := eq_append_of_place? h
  simp

theorem sizeOf_takeWhile_of_place? {strings : List String} {s : String} {place : Nat}
    (h : place? strings s = some place) : sizeOf (strings.takeWhile (· ≠ s)) = place := by
  induction strings generalizing place with
  | nil => cases h
  | cons t rest ih =>
      simp only [place?] at h
      split at h
      · cases h
        simp [‹t = s›, sizeOf]
      · obtain ⟨p, hp, rfl⟩ := Option.map_eq_some_iff.1 h
        rw [List.takeWhile_cons_of_pos (by simpa using ‹¬ t = s›), sizeOf, ih hp]

/-- No two strings have the same place. -/
theorem eq_of_place? {strings : List String} {s t : String} {place : Nat}
    (hs : place? strings s = some place) (ht : place? strings t = some place) : s = t := by
  induction strings generalizing place with
  | nil => cases hs
  | cons u rest ih =>
      simp only [place?] at hs ht
      split at hs <;> split at ht
      · exact ‹u = s›.symm.trans ‹u = t›
      · cases hs
        simp at ht
      · cases ht
        simp at hs
      · obtain ⟨p, hp, rfl⟩ := Option.map_eq_some_iff.1 hs
        obtain ⟨q, hq, hpq⟩ := Option.map_eq_some_iff.1 ht
        exact ih hp (by rw [hq, Nat.add_left_cancel hpq])

theorem length_flatMap_entry (strings : List String) :
    (strings.flatMap entry).length = sizeOf strings := by
  induction strings with
  | nil => rfl
  | cons s rest ih =>
      simp only [List.flatMap_cons, List.length_append, entry, List.length_singleton, sizeOf, ih,
        Utf8.length_ofString]

/-- The bytes from the place of a string on start with the string and the zero behind it. -/
theorem drop_flatMap_entry {strings : List String} {s : String} {place : Nat}
    (h : place? strings s = some place) :
    ∃ rest, (strings.flatMap entry).drop place = Utf8.ofString s ++ 0 :: rest := by
  obtain ⟨front, back, hs, hf⟩ := eq_append_of_place? h
  refine ⟨back.flatMap entry, ?_⟩
  rw [hs, List.flatMap_append, List.flatMap_cons, ← hf, ← length_flatMap_entry, List.drop_left]
  simp [entry]

theorem place_lt_sizeOf {strings : List String} {s : String} {place : Nat}
    (h : place? strings s = some place) : place < sizeOf strings := by
  obtain ⟨front, back, hs, hf⟩ := eq_append_of_place? h
  rw [hs, sizeOf_append, sizeOf]
  omega

/-- Another string behind all others changes no place but its own. -/
theorem place?_concat_of_ne {strings : List String} {s t : String} (h : t ≠ s) :
    place? (strings ++ [s]) t = place? strings t := by
  cases hplace : place? strings t with
  | some place => exact place?_append hplace [s]
  | none =>
      rw [place?_eq_none_iff] at hplace ⊢
      simp [hplace, h]

/-! ## What a pool stands for -/

def strings (p : StringPool) : List String := (p.cache.entries.map (·.1)).reverse

/-- The buffer and the dictionary agree with the strings, and no string ends early. -/
structure Faithful (p : StringPool) : Prop where
  bytes_eq : p.bytes = p.strings.flatMap entry
  get?_eq : ∀ s, p.cache.get? s = (place? p.strings s).map Nat.toUInt32
  place_lt : ∀ s place, place? p.strings s = some place → place < UInt32.size
  clean : ∀ s ∈ p.strings, hasNul s = false

variable {p q r : StringPool} {s : String} {place offset : UInt32}

theorem nodup_strings (p : StringPool) : p.strings.Nodup :=
  List.pairwise_reverse.2 (p.cache.distinct.imp Ne.symm)

theorem mem_strings : s ∈ p.strings ↔ ∃ place, p.cache.get? s = some place := by
  simp only [strings, List.mem_reverse, List.mem_map, Prod.exists, exists_and_right,
    exists_eq_right, Dictionary.mem_entries_iff]

theorem faithful_empty (base : UInt32) : Faithful (.empty base) where
  bytes_eq := rfl
  get?_eq _ := rfl
  place_lt _ _ h := by cases h
  clean _ h := by cases h

namespace Faithful

theorem size_eq (h : p.Faithful) : p.size = sizeOf p.strings := by
  rw [size, h.bytes_eq, length_flatMap_entry]

theorem place?_of_get? (h : p.Faithful) (hget : p.cache.get? s = some place) :
    place? p.strings s = some place.toNat := by
  rw [h.get?_eq] at hget
  obtain ⟨n, hn, rfl⟩ := Option.map_eq_some_iff.1 hget
  rw [hn, Nat.toUInt32_eq, UInt32.toNat_ofNat_of_lt' (h.place_lt s n hn)]

theorem get?_eq_none_iff (h : p.Faithful) : p.cache.get? s = none ↔ place? p.strings s = none := by
  rw [h.get?_eq, Option.map_eq_none_iff]

end Faithful

def added (p : StringPool) (s : String) : StringPool :=
  { p with bytes := p.bytes ++ entry s, cache := p.cache.insert s p.size.toUInt32 }

theorem strings_added (h : p.cache.get? s = none) : (p.added s).strings = p.strings ++ [s] := by
  simp [strings, added, Dictionary.entries_insert h]

theorem get?_added (t : String) :
    (p.added s).cache.get? t = if t = s then some p.size.toUInt32 else p.cache.get? t :=
  Dictionary.get?_insert _ _ _ _

theorem Faithful.added (h : p.Faithful) (hnew : p.cache.get? s = none) (hnul : hasNul s = false)
    (hroom : p.size < UInt32.size) : (p.added s).Faithful := by
  have hplace := h.get?_eq_none_iff.1 hnew
  constructor
  case bytes_eq =>
    rw [strings_added hnew, List.flatMap_append, ← h.bytes_eq]
    simp [StringPool.added]
  case get?_eq =>
    intro t
    rw [get?_added, strings_added hnew]
    by_cases ht : t = s
    · rw [if_pos ht, ht, place?_append_self hplace, h.size_eq]
      rfl
    · rw [if_neg ht, place?_concat_of_ne ht, h.get?_eq]
  case place_lt =>
    intro t n hn
    rw [strings_added hnew] at hn
    by_cases ht : t = s
    · rw [ht, place?_append_self hplace, ← h.size_eq] at hn
      cases hn
      exact hroom
    · rw [place?_concat_of_ne ht] at hn
      exact h.place_lt t n hn
  case clean =>
    intro t ht
    rw [strings_added hnew] at ht
    rcases List.mem_append.1 ht with ht | ht
    · exact h.clean t ht
    · rw [List.mem_singleton.1 ht]
      exact hnul

/-! ## Interning -/

/-- What a pool answers when it is asked for a string, and what becomes of it. -/
inductive Interns (p : StringPool) (s : String) :
    Except (Fault Refusal) UInt32 × StringPool → Prop
  | known {place : UInt32} (h : p.cache.get? s = some place) : Interns p s (p.offset place, p)
  | nul (h : p.cache.get? s = none) (hnul : hasNul s = true) :
      Interns p s (.error (.error .nul), p)
  | full (h : p.cache.get? s = none) (hnul : hasNul s = false) (hfull : UInt32.size ≤ p.size) :
      Interns p s (.error (.error (.full p.size)), p)
  | new (h : p.cache.get? s = none) (hnul : hasNul s = false) (hroom : p.size < UInt32.size) :
      Interns p s ((p.added s).offset p.size.toUInt32, p.added s)

theorem interns (p : StringPool) (s : String) : p.Interns s (p.intern s) := by
  unfold intern
  split
  · rename_i place h
    exact .known h
  · rename_i h
    split
    · exact .nul h ‹_›
    · rename_i hnul
      split
      · exact .full h (Bool.eq_false_iff.2 hnul) ‹_›
      · exact .new h (Bool.eq_false_iff.2 hnul) (Nat.lt_of_not_le ‹_›)

theorem offset_eq_ok (h : p.offset place = .ok offset) :
    offset.toNat = p.base.toNat + place.toNat := by
  unfold StringPool.offset checkedSum at h
  split at h
  · rename_i hlt
    cases h
    rw [Nat.toUInt32_eq, UInt32.toNat_ofNat_of_lt' hlt]
  · cases h

theorem exists_offset (h : p.base.toNat + place.toNat < UInt32.size) :
    ∃ offset, p.offset place = .ok offset := ⟨_, by rw [offset, checkedSum_of_lt h]; rfl⟩

/-- A later state of a pool: strings are only added, behind the others. -/
structure Grows (p q : StringPool) : Prop where
  base : q.base = p.base
  cache : ∀ s place, p.cache.get? s = some place → q.cache.get? s = some place
  strings : p.strings <+: q.strings
  faithful : p.Faithful → q.Faithful

theorem Grows.refl (p : StringPool) : Grows p p := ⟨rfl, fun _ _ => id, List.prefix_rfl, id⟩

theorem Grows.trans (h₁ : Grows p q) (h₂ : Grows q r) : Grows p r :=
  ⟨h₂.base.trans h₁.base, fun s place h => h₂.cache s place (h₁.cache s place h),
    h₁.strings.trans h₂.strings, h₂.faithful ∘ h₁.faithful⟩

theorem grows_intern (p : StringPool) (s : String) : p.Grows (p.intern s).2 := by
  generalize hresult : p.intern s = result
  cases hresult ▸ p.interns s with
  | known | nul | full => exact .refl p
  | new h hnul hroom =>
      refine ⟨rfl, fun t place ht => ?_, ?_, fun hp => hp.added h hnul hroom⟩
      · rw [get?_added, if_neg ?_]
        · exact ht
        · rintro rfl
          cases h.symm.trans ht
      · rw [strings_added h]
        exact List.prefix_append _ _

def Holds (p : StringPool) (s : String) (offset : UInt32) : Prop :=
  ∃ place, p.cache.get? s = some place ∧ offset.toNat = p.base.toNat + place.toNat

theorem Holds.grows (h : p.Holds s offset) (hg : Grows p q) : q.Holds s offset := by
  obtain ⟨place, hp, ho⟩ := h
  exact ⟨place, hg.cache s place hp, by rw [hg.base]; exact ho⟩

/-- A pool that gives an offset for a string holds the string there. -/
theorem holds_of_intern (h : (p.intern s).1 = .ok offset) : (p.intern s).2.Holds s offset := by
  generalize hresult : p.intern s = result at h
  cases hresult ▸ p.interns s with
  | known hget => exact ⟨_, hget, offset_eq_ok h⟩
  | nul | full => cases h
  | new => exact ⟨_, by rw [get?_added, if_pos rfl], offset_eq_ok h⟩

end StringPool

end Gsc
