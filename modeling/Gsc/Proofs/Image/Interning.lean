import Gsc.Proofs.Image.Encoding
import Gsc.Proofs.Image.Stack
import Mathlib.Data.List.Induction

/-! # Pools over many calls

A new pool is asked for strings one after the other, and some are refused. What it holds in the end
depends on the strings alone, and so does each answer. A region whose function table and code name
strings of such a pool gives back the rows and the strings.
-/

namespace Gsc

theorem Utf8.zero_mem_ofString_iff {s : String} :
    0 ∈ Utf8.ofString s ↔ StringPool.hasNul s = true := by
  rw [StringPool.hasNul, List.contains_iff_mem]
  constructor
  · intro h
    by_contra hs
    exact Utf8.zero_not_mem_encode hs h
  · intro h
    exact List.mem_flatMap.2 ⟨_, h, by decide⟩

namespace StringPool

/-! ## Calls -/

def calls (p : StringPool) :
    List String → List (Except (Fault Refusal) UInt32) × StringPool
  | [] => ([], p)
  | s :: rest =>
    ((p.intern s).1 :: ((p.intern s).2.calls rest).1, ((p.intern s).2.calls rest).2)

variable {p : StringPool} {s : String} {strings : List String}

/-- Where offsets are words, a string with a zero byte is refused and changes nothing, and any other
one is in the pool then. -/
theorem intern_cases (hp : p.Faithful)
    (hfits : p.base.toNat + (p.intern s).2.size < UInt32.size) :
    (0 ∈ Utf8.ofString s ∧ p.intern s = (.error (.error .nul), p)) ∨
    (0 ∉ Utf8.ofString s ∧ (∃ offset, (p.intern s).1 = .ok offset) ∧
      (p.intern s).2.strings = if s ∈ p.strings then p.strings else p.strings ++ [s]) := by
  rw [Utf8.zero_mem_ofString_iff]
  generalize hresult : p.intern s = result at hfits ⊢
  cases hresult ▸ p.interns s with
  | known hget =>
      dsimp only at hfits
      have hplace := hp.place?_of_get? hget
      have hlt := place_lt_sizeOf hplace
      rw [← hp.size_eq] at hlt
      have hmem := mem_of_place? hplace
      exact .inr ⟨by simp [hp.clean s hmem], exists_offset (by omega), (if_pos hmem).symm⟩
  | nul hget hnul => exact .inl ⟨hnul, rfl⟩
  | full hget hnul hfull =>
      dsimp only at hfits
      omega
  | new hget hnul hroom =>
      have hnew := place?_eq_none_iff.1 (hp.get?_eq_none_iff.1 hget)
      refine .inr ⟨by simp [hnul], exists_offset ?_, ?_⟩
      · have hsize : (p.added s).size = p.size + (entry s).length := List.length_append
        rw [hsize] at hfits
        rw [Nat.toUInt32_eq, UInt32.toNat_ofNat_of_lt' hroom]
        exact Nat.lt_of_le_of_lt (by simp only [added]; omega) hfits
      · rw [strings_added hget, if_neg hnew]

theorem grows_calls (p : StringPool) (strings : List String) : p.Grows (p.calls strings).2 := by
  induction strings generalizing p with
  | nil => exact .refl p
  | cons s strings ih => exact (p.grows_intern s).trans (ih _)

theorem faithful_calls (base : UInt32) (strings : List String) :
    ((empty base).calls strings).2.Faithful :=
  (grows_calls _ strings).faithful (faithful_empty base)

theorem size_le_of_grows {q : StringPool} (hp : p.Faithful) (h : p.Grows q) : p.size ≤ q.size := by
  obtain ⟨more, hm⟩ := h.strings
  rw [hp.size_eq, (h.faithful hp).size_eq, ← hm, sizeOf_append]
  omega

theorem length_calls (p : StringPool) (strings : List String) :
    (p.calls strings).1.length = strings.length := by
  induction strings generalizing p with
  | nil => rfl
  | cons s strings ih => rw [calls, List.length_cons, ih, List.length_cons]

theorem calls_append (p : StringPool) (front back : List String) :
    p.calls (front ++ back) = ((p.calls front).1 ++ ((p.calls front).2.calls back).1,
      ((p.calls front).2.calls back).2) := by
  induction front generalizing p with
  | nil => rfl
  | cons s front ih => simp only [List.cons_append, calls, ih]

/-! ## What calls leave in a pool -/

/-- The strings without a zero byte, each once, in the order in which they come first. -/
def distinct (strings : List String) : List String :=
  (strings.filter fun s => 0 ∉ Utf8.ofString s).eraseDups

theorem mem_distinct : s ∈ distinct strings ↔ s ∈ strings ∧ 0 ∉ Utf8.ofString s := by
  simp [distinct, List.mem_eraseDups]

theorem distinct_concat (strings : List String) (s : String) :
    distinct (strings ++ [s]) =
      if 0 ∈ Utf8.ofString s ∨ s ∈ distinct strings then distinct strings
      else distinct strings ++ [s] := by
  by_cases hs : 0 ∈ Utf8.ofString s
  · rw [if_pos (.inl hs)]
    simp [distinct, hs]
  · have hfilter : ([s].filter fun s => 0 ∉ Utf8.ofString s) = [s] := by simp [hs]
    simp only [hs, false_or, mem_distinct, not_false_eq_true, and_true]
    rw [distinct, List.filter_append, hfilter, List.eraseDups_append]
    by_cases hmem : s ∈ strings
    · simp [List.removeAll, hmem, hs, distinct]
    · simp [List.removeAll, hmem, distinct, List.eraseDups_cons]

/-- Where offsets are words, the strings of a pool are those that it was asked for and did not
refuse. -/
theorem strings_calls (base : UInt32) (strings : List String)
    (hfits : base.toNat + ((empty base).calls strings).2.size < UInt32.size) :
    ((empty base).calls strings).2.strings = distinct strings := by
  -- from the back: a call finds the pool that the calls before it have left
  induction strings using List.reverseRecOn with
  | nil => rfl
  | append_singleton strings s ih =>
      rw [calls_append] at hfits ⊢
      change _ + (((empty base).calls strings).2.intern s).2.size < _ at hfits
      change (((empty base).calls strings).2.intern s).2.strings = _
      have hp := faithful_calls base strings
      have hbase : ((empty base).calls strings).2.base = base := (grows_calls _ strings).base
      generalize ((empty base).calls strings).2 = p at *
      have hgrows := size_le_of_grows hp (p.grows_intern s)
      rw [distinct_concat, ← ih (by omega)]
      rcases intern_cases hp (by rw [hbase]; exact hfits) with ⟨hs, hcall⟩ | ⟨hs, -, hcall⟩
      · rw [hcall, if_pos (.inl hs)]
      · rw [hcall]
        simp only [hs, false_or]

def after (base : UInt32) (strings : List String) (count : Nat) : StringPool :=
  ((empty base).calls (strings.take count)).2

variable {base : UInt32} {i : Nat}

/-- A call finds the pool after those before it, and the final pool goes on from where it leaves. -/
theorem getElem?_calls (base : UInt32) (h : strings[i]? = some s) :
    ((empty base).calls strings).1[i]? = some ((after base strings i).intern s).1 ∧
      after base strings (i + 1) = ((after base strings i).intern s).2 ∧
      (after base strings (i + 1)).Grows ((empty base).calls strings).2 := by
  obtain ⟨hi, rfl⟩ := List.getElem?_eq_some_iff.1 h
  have hsplit : strings = strings.take i ++ strings[i] :: strings.drop (i + 1) := by
    rw [← List.drop_eq_getElem_cons hi, List.take_append_drop]
  have hrun := calls_append (empty base) (strings.take i) (strings[i] :: strings.drop (i + 1))
  rw [← hsplit] at hrun
  have hafter : after base strings (i + 1) = ((after base strings i).intern strings[i]).2 := by
    rw [after, List.take_succ_eq_append_getElem hi, calls_append]
    rfl
  refine ⟨?_, hafter, ?_⟩
  · have hlength : ((empty base).calls (strings.take i)).1.length = i := by
      rw [length_calls, List.length_take, Nat.min_eq_left (Nat.le_of_lt hi)]
    rw [hrun, List.getElem?_append_right (Nat.le_of_eq hlength), hlength, Nat.sub_self]
    rfl
  · rw [hrun, hafter]
    exact grows_calls _ _

/-! ## Answers -/

/-- What it comes to when a new pool is asked for strings one after the other. -/
structure Canonical (base : UInt32) (strings : List String)
    (answers : List (Except (Fault Refusal) UInt32)) (pool : StringPool) : Prop where
  base_eq : pool.base = base
  /-- The pool is the distinct strings, each with a zero behind it. -/
  bytes_eq : pool.bytes = (distinct strings).flatMap fun s => Utf8.ofString s ++ [0]
  answered : answers.length = strings.length
  refused_iff : ∀ (i : Nat) (s : String), strings[i]? = some s →
    ((∃ e, answers[i]? = some (.error e)) ↔ 0 ∈ Utf8.ofString s)
  unchanged : ∀ (i : Nat) (e : Fault Refusal), answers[i]? = some (.error e) →
    after base strings (i + 1) = after base strings i
  /-- An offset is the length of what stands in front of the string. -/
  offset_eq : ∀ (i : Nat) (s : String) (offset : UInt32), strings[i]? = some s →
    answers[i]? = some (.ok offset) →
    s ∈ distinct strings ∧ offset.toNat = base.toNat
      + (((distinct strings).takeWhile (· ≠ s)).flatMap fun t => Utf8.ofString t ++ [0]).length
  offset_eq_iff : ∀ (i j : Nat) (s t : String) (offset offset' : UInt32),
    strings[i]? = some s → strings[j]? = some t →
    answers[i]? = some (.ok offset) → answers[j]? = some (.ok offset') →
    (offset = offset' ↔ s = t)

section Fits

variable (hfits : base.toNat + ((empty base).calls strings).2.bytes.length < UInt32.size)

include hfits

theorem offset_of_holds {offset : UInt32} (h : ((empty base).calls strings).2.Holds s offset) :
    ∃ place, place? (distinct strings) s = some place ∧ offset.toNat = base.toNat + place := by
  have hbase : ((empty base).calls strings).2.base = base := (grows_calls _ strings).base
  obtain ⟨place, hget, hoffset⟩ := h
  have hplace := (faithful_calls base strings).place?_of_get? hget
  rw [strings_calls base strings hfits] at hplace
  exact ⟨place.toNat, hplace, by rw [hoffset, hbase]⟩

/-- A call is refused and changes nothing, or it is answered by the offset in the final pool. -/
theorem answer_cases (h : strings[i]? = some s) :
    (0 ∈ Utf8.ofString s ∧
      ((empty base).calls strings).1[i]? = some (.error (.error .nul)) ∧
      after base strings (i + 1) = after base strings i) ∨
    (0 ∉ Utf8.ofString s ∧ ∃ offset place,
      ((empty base).calls strings).1[i]? = some (.ok offset) ∧
      place? (distinct strings) s = some place ∧ offset.toNat = base.toNat + place) := by
  have hp : (after base strings i).Faithful := faithful_calls base _
  have hbase : (after base strings i).base = base := (grows_calls _ _).base
  obtain ⟨hanswer, hafter, hgrows⟩ := getElem?_calls base h
  have hroom : (after base strings i).base.toNat + ((after base strings i).intern s).2.size
      < UInt32.size := by
    have hfinal := size_le_of_grows (faithful_calls base _) hgrows
    rw [hbase, ← hafter]
    exact Nat.lt_of_le_of_lt (Nat.add_le_add_left hfinal _) hfits
  rcases intern_cases hp hroom with ⟨hs, hcall⟩ | ⟨hs, ⟨offset, hcall⟩, -⟩
  · rw [hcall] at hanswer hafter
    exact .inl ⟨hs, hanswer, hafter⟩
  · have hheld : (after base strings (i + 1)).Holds s offset := by
      rw [hafter]
      exact holds_of_intern hcall
    obtain ⟨place, hplace, hoffset⟩ := offset_of_holds hfits (hheld.grows hgrows)
    rw [hcall] at hanswer
    exact .inr ⟨hs, offset, place, hanswer, hplace, hoffset⟩

theorem place_of_answer {offset : UInt32} (h : strings[i]? = some s)
    (hanswer : ((empty base).calls strings).1[i]? = some (.ok offset)) :
    ∃ place, place? (distinct strings) s = some place ∧ offset.toNat = base.toNat + place := by
  rcases answer_cases hfits h with ⟨-, herror, -⟩ | ⟨-, offset', place, hok, hplace, hoffset⟩
  · rw [herror] at hanswer
    cases hanswer
  · rw [hok] at hanswer
    cases hanswer
    exact ⟨place, hplace, hoffset⟩

end Fits

/-- A pool is canonical, whichever calls are refused and however often a string is asked for: it is
the distinct strings in order, exactly those with a zero byte are refused, and a string is at the
place of its first copy. -/
theorem canonical_calls (base : UInt32) (strings : List String)
    (hfits : base.toNat + ((empty base).calls strings).2.bytes.length < UInt32.size) :
    Canonical base strings ((empty base).calls strings).1 ((empty base).calls strings).2 := by
  constructor
  case base_eq => exact (grows_calls _ strings).base
  case bytes_eq =>
    rw [(faithful_calls base strings).bytes_eq, strings_calls base strings hfits]
    rfl
  case answered => exact length_calls _ strings
  case refused_iff =>
    intro i s h
    rcases answer_cases hfits h with ⟨hs, herror, -⟩ | ⟨hs, offset, place, hok, -⟩
    · exact iff_of_true ⟨_, herror⟩ hs
    · refine iff_of_false ?_ hs
      rintro ⟨e, he⟩
      rw [hok] at he
      cases he
  case unchanged =>
    intro i e herror
    obtain ⟨hi, -⟩ := List.getElem?_eq_some_iff.1 herror
    rw [length_calls] at hi
    rcases answer_cases hfits (List.getElem?_eq_getElem hi) with ⟨-, -, hsame⟩ |
      ⟨-, offset, place, hok, -⟩
    · exact hsame
    · rw [hok] at herror
      cases herror
  case offset_eq =>
    intro i s offset h hanswer
    obtain ⟨place, hplace, hoffset⟩ := place_of_answer hfits h hanswer
    refine ⟨mem_of_place? hplace, ?_⟩
    rw [hoffset, ← sizeOf_takeWhile_of_place? hplace, ← length_flatMap_entry]
    rfl
  case offset_eq_iff =>
    intro i j s t offset offset' hs ht hoffset hoffset'
    obtain ⟨place, hplace, heq⟩ := place_of_answer hfits hs hoffset
    obtain ⟨place', hplace', heq'⟩ := place_of_answer hfits ht hoffset'
    rw [← UInt32.toNat_inj, heq, heq', Nat.add_left_cancel_iff]
    constructor
    · rintro rfl
      exact eq_of_place? hplace hplace'
    · rintro rfl
      exact Option.some.inj (hplace.symm.trans hplace')

/-- Strings asked for again, an empty one, and two that are refused. -/
def someCalls : List String := ["main", "a\x00b", "", "init", "main", "\x00", "", "é"]

theorem canonical_someCalls :
    ((empty 16).calls someCalls).2.bytes = Utf8.ofString "main\x00\x00init\x00é\x00" ∧
      ((empty 16).calls someCalls).1 = [.ok 16, .error (.error .nul), .ok 21, .ok 22, .ok 16,
        .error (.error .nul), .ok 21, .ok 27] ∧
      Canonical 16 someCalls ((empty 16).calls someCalls).1 ((empty 16).calls someCalls).2 :=
  ⟨by decide +kernel, by decide +kernel, canonical_calls 16 someCalls (by decide +kernel)⟩

end StringPool

/-! ## Regions -/

namespace Stack

theorem Written.readString_outside {stack : Bytes} {functions : List FunctionEntry}
    {names : List UInt32} {pool : StringPool} (h : Written stack functions names pool)
    {offset : UInt32}
    (ho : offset.toNat < headerSize functions.length ∨ stack.length ≤ offset.toNat) :
    readString stack offset = .error (.badStringOffset offset) := by
  rw [readString, h.count_eq]
  dsimp only
  split
  · rfl
  · rename_i hheader
    rw [List.drop_of_length_le (ho.resolve_left hheader)]

/-- The region of a pool that was asked for the names of functions and then for other strings. -/
theorem written_of_internAll {functions : List FunctionEntry} {strings : List String}
    {names offsets : List UInt32} {first pool : StringPool}
    (hnames : Assembly.internAll (.empty (headerSize functions.length).toUInt32)
      (functions.map (·.name)) = .ok (names, first))
    (hstrings : Assembly.internAll first strings = .ok (offsets, pool))
    (hsize : (write functions names pool).length ≤ regionLimit) :
    Written (write functions names pool) functions names pool := by
  obtain ⟨hgrows, hheld⟩ := Assembly.internAll_spec hnames
  obtain ⟨hgrows', -⟩ := Assembly.internAll_spec hstrings
  have hpaired : names.length = functions.length := by
    rw [← hheld.length_eq, List.length_map]
  refine ⟨rfl, hpaired, ?_, hgrows'.faithful (hgrows.faithful (StringPool.faithful_empty _)), hsize⟩
  have hbase : pool.base = (headerSize functions.length).toUInt32 := hgrows'.base.trans hgrows.base
  rw [length_write hpaired, regionLimit] at hsize
  rw [hbase, Nat.toUInt32_eq, UInt32.toNat_ofNat_of_lt']
  simp only [UInt32.size]
  omega

/-- A region gives back the rows of its functions, in order, and every string at the offset that the
pool gave for it. Nothing is read at an offset in front of the pool or behind it. -/
theorem read_write (functions : List FunctionEntry) (strings : List String)
    (names offsets : List UInt32) (first pool : StringPool)
    (hnames : Assembly.internAll (.empty (headerSize functions.length).toUInt32)
      (functions.map (·.name)) = .ok (names, first))
    (hstrings : Assembly.internAll first strings = .ok (offsets, pool))
    (hsize : (write functions names pool).length < 2147483648) :
    names.length = functions.length ∧ offsets.length = strings.length ∧
      readRows (write functions names pool) = .ok (List.zipWith toRow functions names) ∧
      (∀ s offset, (s, offset) ∈ (functions.map (·.name)).zip names ++ strings.zip offsets →
        readString (write functions names pool) offset = .ok s) ∧
      ∀ offset : UInt32, offset.toNat < headerSize functions.length ∨
          (write functions names pool).length ≤ offset.toNat →
        readString (write functions names pool) offset = .error (.badStringOffset offset) := by
  have hwritten := written_of_internAll hnames hstrings (Nat.le_of_lt_succ hsize)
  obtain ⟨-, hheld⟩ := Assembly.internAll_spec hnames
  obtain ⟨hgrows, hheld'⟩ := Assembly.internAll_spec hstrings
  refine ⟨hwritten.paired, hheld'.length_eq.symm, hwritten.readRows_eq, ?_, ?_⟩
  · intro s offset h
    have hholds : pool.Holds s offset := by
      rcases List.mem_append.1 h with h | h
      · exact (List.forall₂_zip hheld h).grows hgrows
      · exact List.forall₂_zip hheld' h
    exact hwritten.readString_eq hholds
  · exact fun offset h => hwritten.readString_outside h

/-- Two functions of one name, and one whose name takes more bytes than characters. -/
def sharedNames : List FunctionEntry := [⟨"main", 4294967295, 7⟩, ⟨"é", 0, 0⟩, ⟨"main", 3, 9⟩]

def namesPool : StringPool where
  bytes := Utf8.ofString "main\x00é\x00"
  cache := ⟨[("é", 5), ("main", 0)], by decide⟩
  base := 40

def sharedPool : StringPool where
  bytes := Utf8.ofString "main\x00é\x00\x00init\x00"
  cache := ⟨[("init", 9), ("", 8), ("é", 5), ("main", 0)], by decide⟩
  base := 40

theorem read_write_sharedNames :
    Assembly.internAll (.empty 40) (sharedNames.map (·.name))
      = .ok ([40, 45, 40], namesPool) ∧
    Assembly.internAll namesPool ["", "main", "init", ""]
      = .ok ([48, 40, 49, 48], sharedPool) ∧
    readRows (write sharedNames [40, 45, 40] sharedPool)
      = .ok [⟨4294967295, 7, 40⟩, ⟨0, 0, 45⟩, ⟨3, 9, 40⟩] ∧
    readString (write sharedNames [40, 45, 40] sharedPool) 45 = .ok "é" ∧
    readString (write sharedNames [40, 45, 40] sharedPool) 48 = .ok "" ∧
    readString (write sharedNames [40, 45, 40] sharedPool) 39 = .error (.badStringOffset 39) ∧
    readString (write sharedNames [40, 45, 40] sharedPool) 54 = .error (.badStringOffset 54) := by
  have hnames : Assembly.internAll (.empty 40) (sharedNames.map (·.name))
      = .ok ([40, 45, 40], namesPool) := by decide +kernel
  have hstrings : Assembly.internAll namesPool ["", "main", "init", ""]
      = .ok ([48, 40, 49, 48], sharedPool) := by decide +kernel
  obtain ⟨-, -, hrows, hread, houtside⟩ := read_write sharedNames ["", "main", "init", ""]
    [40, 45, 40] [48, 40, 49, 48] namesPool sharedPool hnames hstrings (by decide +kernel)
  exact ⟨hnames, hstrings, hrows, hread "é" 45 (by decide), hread "" 48 (by decide),
    houtside 39 (by decide), houtside 54 (by decide +kernel)⟩

end Stack

end Gsc
