import Gsc.Image.OpcodeTable
import Gsc.Proofs.Except
import Mathlib.Data.List.Induction
import Mathlib.Data.List.Nodup

/-! # The table that assignments make

A table is made by assignments one after the other, of which a later one to the same opcode counts.
Whether there is a table, and which, is said here by the assignments alone: an assignment may not
take a byte that another opcode has at that time, and in the end every opcode needs a byte.
-/

namespace Gsc

namespace Numbering

/-- The byte that the last assignment to an opcode gives it. -/
def latest? (assignments : List (Opcode × UInt8)) (op : Opcode) : Option UInt8 :=
  assignments.reverse.lookup op

/-- An assignment, behind others, takes the byte of another opcode. -/
structure Clashes (before : List (Opcode × UInt8)) (op : Opcode) (byte : UInt8) (first : Opcode) :
    Prop where
  other : first ≠ op
  latest : latest? before first = some byte

/-- No assignment takes the byte that another opcode has at that time. -/
def Clear (assignments : List (Opcode × UInt8)) : Prop :=
  ∀ (i : Nat) (op : Opcode) (byte : UInt8), assignments[i]? = some (op, byte) →
    ∀ first, ¬ Clashes (assignments.take i) op byte first

variable {n : Numbering} {assignments before : List (Opcode × UInt8)} {op first : Opcode}
  {byte : UInt8}

theorem latest?_concat (before : List (Opcode × UInt8)) (op : Opcode) (byte : UInt8)
    (other : Opcode) :
    latest? (before ++ [(op, byte)]) other
      = if other = op then some byte else latest? before other := by
  rw [latest?, List.reverse_append, List.reverse_singleton, List.singleton_append, List.lookup_cons]
  by_cases h : other = op
  · simp [h]
  · have hne : (other == op) = false := by simpa using h
    rw [hne, if_neg h]
    rfl

theorem mem_of_latest? (h : latest? assignments op = some byte) : (op, byte) ∈ assignments := by
  obtain ⟨front, back, heq, -⟩ := List.lookup_eq_some_iff.1 h
  rw [← List.mem_reverse, heq]
  simp

theorem clear_concat_iff :
    Clear (before ++ [(op, byte)]) ↔
      Clear before ∧ ∀ first, ¬ Clashes before op byte first := by
  constructor
  · intro h
    refine ⟨fun i op' byte' hi => ?_, ?_⟩
    · obtain ⟨hlt, -⟩ := List.getElem?_eq_some_iff.1 hi
      have hfree := h i op' byte' (by rw [List.getElem?_append_left hlt, hi])
      rwa [List.take_append_of_le_length (Nat.le_of_lt hlt)] at hfree
    · have hfree := h before.length op byte (by simp)
      rwa [List.take_left] at hfree
  · rintro ⟨hclear, hfree⟩ i op' byte' hi
    by_cases hlt : i < before.length
    · rw [List.getElem?_append_left hlt] at hi
      rw [List.take_append_of_le_length (Nat.le_of_lt hlt)]
      exact hclear i op' byte' hi
    · obtain ⟨hle, -⟩ := List.getElem?_eq_some_iff.1 hi
      rw [List.length_append, List.length_singleton] at hle
      obtain rfl : i = before.length := by omega
      rw [List.getElem?_append_right (Nat.le_refl _), Nat.sub_self] at hi
      cases hi
      rw [List.take_left]
      exact hfree

/-- Either no assignment clashes, or there is a first one. -/
theorem clear_or_clashes (assignments : List (Opcode × UInt8)) :
    Clear assignments ∨ ∃ (i : Nat) (op : Opcode) (byte : UInt8) (first : Opcode),
      assignments[i]? = some (op, byte) ∧ Clear (assignments.take i) ∧
        Clashes (assignments.take i) op byte first := by
  induction assignments using List.reverseRecOn with
  | nil => exact .inl (by simp [Clear])
  | append_singleton before last ih =>
      obtain ⟨op, byte⟩ := last
      rcases ih with hclear | ⟨i, op', byte', first, hi, hclear, hclash⟩
      · by_cases h : ∃ first, Clashes before op byte first
        · obtain ⟨first, hclash⟩ := h
          exact .inr ⟨before.length, op, byte, first, by simp, by simpa using hclear,
            by simpa using hclash⟩
        · exact .inl (clear_concat_iff.2 ⟨hclear, not_exists.1 h⟩)
      · obtain ⟨hlt, -⟩ := List.getElem?_eq_some_iff.1 hi
        have htake : (before ++ [(op, byte)]).take i = before.take i :=
          List.take_append_of_le_length (Nat.le_of_lt hlt)
        refine .inr ⟨i, op', byte', first, ?_, ?_, ?_⟩
        · rw [List.getElem?_append_left hlt, hi]
        · rw [htake]
          exact hclear
        · rw [htake]
          exact hclash

/-! ## Assigning -/

def Shows (n : Numbering) (assignments : List (Opcode × UInt8)) : Prop :=
  ∀ op, n.byte? op = latest? assignments op

theorem assign_of_clashes (hn : n.Shows before) (h : Clashes before op byte first) :
    n.assign op byte = .error (.duplicateByte byte first op) := by
  have hholder : n.holder? byte = some first :=
    (n.holder?_eq_some_iff byte first).2 ((hn first).trans h.latest)
  unfold assign
  split
  · rename_i hnone
    rw [hholder] at hnone
    cases hnone
  · rename_i found hfound
    rw [hholder] at hfound
    cases hfound
    rw [if_neg h.other]

theorem assign_of_free (hn : n.Shows before) (h : ∀ first, ¬ Clashes before op byte first) :
    ∃ m, n.assign op byte = .ok m ∧ m.Shows (before ++ [(op, byte)]) := by
  unfold assign
  split
  · rename_i hnone
    refine ⟨n.give op byte hnone, rfl, fun other => ?_⟩
    rw [latest?_concat, ← hn other]
    rfl
  · rename_i first hfirst
    have hbyte := (n.holder?_eq_some_iff byte first).1 hfirst
    by_cases hop : first = op
    · rw [if_pos hop]
      refine ⟨n, rfl, fun other => ?_⟩
      rw [latest?_concat, ← hn other]
      split
      · rename_i hother
        rw [hother, ← hop, hbyte]
      · rfl
    · exact absurd ⟨hop, (hn first).symm.trans hbyte⟩ (h first)

theorem assignAll_append (n : Numbering) (front back : List (Opcode × UInt8)) :
    n.assignAll (front ++ back) = n.assignAll front >>= fun m => m.assignAll back := by
  induction front generalizing n with
  | nil => rfl
  | cons pair front ih =>
      obtain ⟨op, byte⟩ := pair
      simp only [List.cons_append, assignAll]
      cases n.assign op byte with
      | ok m => exact ih m
      | error e => rfl

theorem assignAll_of_clear (h : Clear assignments) :
    ∃ n, empty.assignAll assignments = .ok n ∧ n.Shows assignments := by
  induction assignments using List.reverseRecOn with
  | nil => exact ⟨empty, rfl, fun _ => rfl⟩
  | append_singleton before last ih =>
      obtain ⟨op, byte⟩ := last
      obtain ⟨hclear, hfree⟩ := clear_concat_iff.1 h
      obtain ⟨n, hn, hshows⟩ := ih hclear
      obtain ⟨m, hm, hshows'⟩ := assign_of_free hshows hfree
      refine ⟨m, ?_, hshows'⟩
      rw [assignAll_append, hn]
      change n.assignAll [(op, byte)] = .ok m
      rw [assignAll, hm]
      rfl

theorem assignAll_of_clashes {i : Nat} (hi : assignments[i]? = some (op, byte))
    (hclear : Clear (assignments.take i)) (h : Clashes (assignments.take i) op byte first) :
    empty.assignAll assignments = .error (.duplicateByte byte first op) := by
  obtain ⟨hlt, hpair⟩ := List.getElem?_eq_some_iff.1 hi
  obtain ⟨n, hn, hshows⟩ := assignAll_of_clear hclear
  rw [← List.take_append_drop i assignments, assignAll_append, hn, List.drop_eq_getElem_cons hlt,
    hpair]
  change n.assignAll ((op, byte) :: assignments.drop (i + 1)) = _
  rw [assignAll, assign_of_clashes hshows h]

/-! ## Each opcode assigned once -/

theorem latest?_eq_some_iff (h : (assignments.map Prod.fst).Nodup) :
    latest? assignments op = some byte ↔ (op, byte) ∈ assignments := by
  refine ⟨mem_of_latest?, fun hmem => ?_⟩
  have hnodup : (assignments.reverse.map Prod.fst).Nodup := by
    rw [List.map_reverse, List.nodup_reverse]
    exact h
  obtain ⟨front, back, heq⟩ := List.append_of_mem (List.mem_reverse.2 hmem)
  rw [heq, List.map_append, List.map_cons, List.nodup_append] at hnodup
  refine List.lookup_eq_some_iff.2 ⟨front, back, heq, fun pair hpair => ?_⟩
  have hne : pair.1 ≠ op := hnodup.2.2 _ (List.mem_map_of_mem hpair) _ List.mem_cons_self
  simpa using hne.symm

theorem clear_iff_of_nodup (h : (assignments.map Prod.fst).Nodup) :
    Clear assignments ↔
      ∀ a b x, (a, x) ∈ assignments → (b, x) ∈ assignments → a = b := by
  constructor
  · intro hclear a b x ha hb
    obtain ⟨n, -, hshows⟩ := assignAll_of_clear hclear
    rw [← latest?_eq_some_iff h, ← hshows, ← n.holder?_eq_some_iff] at ha hb
    exact Option.some.inj (ha.symm.trans hb)
  · intro hbytes i op byte hi first hclash
    have hfirst := List.mem_of_mem_take (mem_of_latest? hclash.latest)
    exact hclash.other (hbytes first op byte hfirst (List.mem_of_getElem? hi))

end Numbering

namespace OpcodeTable

open Gsc.Numbering

theorem eq_of_byte_eq {t u : OpcodeTable} (hversion : t.version = u.version)
    (hbyte : ∀ op, t.byte op = u.byte op) : t = u := by
  have hopcode : t.opcode? = u.opcode? := by
    funext b
    apply Option.ext
    intro op
    rw [t.opcode?_eq_some_iff, u.opcode?_eq_some_iff, hbyte]
  cases t
  cases u
  congr
  exact funext hbyte

inductive Outcome (version : String) (assignments : List (Opcode × UInt8)) :
    Except TableError OpcodeTable → Prop
  /-- The first assignment of a byte that another opcode has at that time. -/
  | duplicate {i : Nat} {op first : Opcode} {byte : UInt8}
      (hi : assignments[i]? = some (op, byte)) (hclear : Clear (assignments.take i))
      (hclash : Clashes (assignments.take i) op byte first) :
      Outcome version assignments (.error (.duplicateByte byte first op))
  /-- The first opcode that is left out. -/
  | missing {op : Opcode} (hclear : Clear assignments) (hop : latest? assignments op = none)
      (hfirst : ∀ other, other.index < op.index → latest? assignments other ≠ none) :
      Outcome version assignments (.error (.missing op))
  | table {t : OpcodeTable} (hclear : Clear assignments) (hversion : t.version = version)
      (hbyte : ∀ op, latest? assignments op = some (t.byte op)) :
      Outcome version assignments (.ok t)

theorem ofNumbering_cases (n : Numbering) (version : String) :
    (∃ op, ofNumbering version n = .error (.missing op) ∧ n.byte? op = none ∧
      ∀ other, other.index < op.index → n.byte? other ≠ none) ∨
    ∃ t, ofNumbering version n = .ok t ∧ t.version = version ∧
      ∀ op, n.byte? op = some (t.byte op) := by
  unfold ofNumbering
  split
  · rename_i op hop
    obtain ⟨hnone, i, hi, rfl, hbefore⟩ := List.find?_eq_some_iff_getElem.1 hop
    refine .inl ⟨_, rfl, by simpa using hnone, fun other hother => ?_⟩
    rw [Opcode.index_getElem hi] at hother
    obtain ⟨hlt, hget⟩ := List.getElem?_eq_some_iff.1 other.getElem?_index
    have hsome := hbefore other.index hother
    rw [hget] at hsome
    simpa [Option.isSome_iff_ne_none] using hsome
  · refine .inr ⟨_, rfl, rfl, fun op => ?_⟩
    simp

theorem ofAssignments_of_clear (version : String) {assignments : List (Opcode × UInt8)}
    (h : Clear assignments) :
    ∃ n : Numbering, n.Shows assignments ∧
      ofAssignments version assignments = ofNumbering version n := by
  obtain ⟨n, hn, hshows⟩ := assignAll_of_clear h
  exact ⟨n, hshows, by rw [ofAssignments, hn]⟩

theorem outcome_ofAssignments (version : String) (assignments : List (Opcode × UInt8)) :
    Outcome version assignments (ofAssignments version assignments) := by
  rcases clear_or_clashes assignments with hclear | ⟨i, op, byte, first, hi, hclear, hclash⟩
  · obtain ⟨n, hshows, heq⟩ := ofAssignments_of_clear version hclear
    rw [heq]
    rcases ofNumbering_cases n version with ⟨op, hmissing, hop, hfirst⟩ | ⟨t, ht, hversion, hbyte⟩
    · rw [hmissing]
      exact .missing hclear (hshows op ▸ hop) fun other h => hshows other ▸ hfirst other h
    · rw [ht]
      exact .table hclear hversion fun op => hshows op ▸ hbyte op
  · rw [ofAssignments, assignAll_of_clashes hi hclear hclash]
    exact .duplicate hi hclear hclash

/-- Assignments have one outcome only. -/
theorem Outcome.eq_ofAssignments {version : String} {assignments : List (Opcode × UInt8)}
    {result : Except TableError OpcodeTable} (h : Outcome version assignments result) :
    ofAssignments version assignments = result := by
  cases h with
  | duplicate hi hclear hclash => rw [ofAssignments, assignAll_of_clashes hi hclear hclash]
  | @missing op hclear hop hfirst =>
      obtain ⟨n, hshows, heq⟩ := ofAssignments_of_clear version hclear
      rw [heq]
      rcases ofNumbering_cases n version with ⟨op', hmissing, hop', hfirst'⟩ | ⟨t, -, -, hbyte⟩
      · have hle : ¬ op.index < op'.index := fun hlt => hfirst' op hlt ((hshows op).trans hop)
        have hge : ¬ op'.index < op.index := fun hlt =>
          hfirst op' hlt ((hshows op').symm.trans hop')
        have hindex : op'.index = op.index := by omega
        have hget := op'.getElem?_index
        rw [hindex, op.getElem?_index] at hget
        rw [hmissing, Option.some.inj hget]
      · rw [← hshows, hbyte op] at hop
        cases hop
  | @table t hclear hversion hbyte =>
      obtain ⟨n, hshows, heq⟩ := ofAssignments_of_clear version hclear
      rw [heq]
      rcases ofNumbering_cases n version with ⟨op, -, hop, -⟩ | ⟨u, hu, hversion', hbyte'⟩
      · rw [hshows, hbyte op] at hop
        cases hop
      · have hut : u = t := eq_of_byte_eq (hversion'.trans hversion.symm) fun op =>
          Option.some.inj ((hbyte' op).symm.trans ((hshows op).trans (hbyte op)))
        rw [hu, hut]

theorem ofAssignments_eq_ok_iff {version : String} {assignments : List (Opcode × UInt8)}
    {t : OpcodeTable} :
    ofAssignments version assignments = .ok t ↔ Clear assignments ∧ t.version = version ∧
      ∀ op, latest? assignments op = some (t.byte op) := by
  constructor
  · intro h
    have houtcome := outcome_ofAssignments version assignments
    rw [h] at houtcome
    cases houtcome with
    | table hclear hversion hbyte => exact ⟨hclear, hversion, hbyte⟩
  · rintro ⟨hclear, hversion, hbyte⟩
    exact (Outcome.table hclear hversion hbyte).eq_ofAssignments

/-- If each opcode is assigned once at most, then the order does not matter. -/
theorem toOption_ofAssignments_of_perm (version : String) {front back : List (Opcode × UInt8)}
    (hperm : front.Perm back) (hnodup : (front.map Prod.fst).Nodup) :
    (ofAssignments version front).toOption = (ofAssignments version back).toOption := by
  have hnodup' : (back.map Prod.fst).Nodup := (hperm.map Prod.fst).nodup_iff.1 hnodup
  have hlatest : ∀ op, latest? front op = latest? back op := by
    intro op
    apply Option.ext
    intro byte
    rw [latest?_eq_some_iff hnodup, latest?_eq_some_iff hnodup', hperm.mem_iff]
  have hclear : Clear front ↔ Clear back := by
    simp only [clear_iff_of_nodup hnodup, clear_iff_of_nodup hnodup', hperm.mem_iff]
  have hok : ∀ (x : Except TableError OpcodeTable) t, x.toOption = some t ↔ x = .ok t := by
    intro x t
    refine ⟨eq_ok_of_toOption, ?_⟩
    rintro rfl
    rfl
  apply Option.ext
  intro t
  simp only [hok, ofAssignments_eq_ok_iff, hclear, hlatest]

/-- A table and its inverse come of assignments as they were last made, the first that takes the
byte of another opcode is refused, and then the first opcode that is left out. If each opcode is
assigned once at most, then every order of the assignments makes the same table. -/
theorem ofAssignments_bijective (version : String) :
    (∀ assignments result,
      ofAssignments version assignments = result ↔ Outcome version assignments result) ∧
    (∀ assignments t, ofAssignments version assignments = .ok t →
      (∀ op, latest? assignments op = some (t.byte op) ∧ t.opcode? (t.byte op) = some op) ∧
      ∀ b op, t.opcode? b = some op → t.byte op = b) ∧
    ∀ front back : List (Opcode × UInt8), front.Perm back → (front.map Prod.fst).Nodup →
      (ofAssignments version front).toOption = (ofAssignments version back).toOption := by
  refine ⟨fun assignments result => ⟨?_, Outcome.eq_ofAssignments⟩, fun assignments t h => ?_,
    fun front back => toOption_ofAssignments_of_perm version⟩
  · rintro rfl
    exact outcome_ofAssignments version assignments
  · obtain ⟨-, -, hbyte⟩ := ofAssignments_eq_ok_iff.1 h
    exact ⟨fun op => ⟨hbyte op, (t.opcode?_eq_some_iff _ op).2 rfl⟩,
      fun b op => (t.opcode?_eq_some_iff b op).1⟩

/-- Every opcode once, the first with the highest byte. -/
def backwards : List (Opcode × UInt8) :=
  Opcode.all.map fun op => (op, (200 - op.index).toUInt8)

/-- A byte goes from one opcode to another before all opcodes get others. -/
def movedBytes : List (Opcode × UInt8) :=
  [(.finish, 1), (.giveBack, 2), (.finish, 3), (.giveBack, 1)] ++ backwards

theorem ofAssignments_bijective_movedBytes :
    (∃ t, ofAssignments "moved" movedBytes = .ok t ∧ t.byte .finish = 199 ∧ t.opcode? 1 = none ∧
      latest? movedBytes .finish = some (t.byte .finish) ∧
      t.opcode? (t.byte .finish) = some .finish) ∧
    Outcome "twice" [(.finish, 1), (.giveBack, 1)] (.error (.duplicateByte 1 .finish .giveBack)) ∧
    (ofAssignments "moved" backwards).toOption
      = (ofAssignments "moved" backwards.reverse).toOption := by
  have hmoved : (ofAssignments "moved" movedBytes).toOption.any
      (fun t => t.byte .finish == 199 && t.opcode? 1 == none) = true := by
    decide +kernel
  obtain ⟨t, ht, hbytes⟩ := exists_ok_of_any hmoved
  simp only [Bool.and_eq_true, beq_iff_eq] at hbytes
  have hfinish := ((ofAssignments_bijective "moved").2.1 movedBytes t ht).1 .finish
  have htwice : ofAssignments "twice" [(.finish, 1), (.giveBack, 1)]
      = .error (.duplicateByte 1 .finish .giveBack) := eq_error_of_errorOf? (by decide)
  exact ⟨⟨t, ht, hbytes.1, hbytes.2, hfinish⟩, ((ofAssignments_bijective "twice").1 _ _).1 htwice,
    (ofAssignments_bijective "moved").2.2 _ _ (List.reverse_perm _).symm (by decide +kernel)⟩

end OpcodeTable

end Gsc
