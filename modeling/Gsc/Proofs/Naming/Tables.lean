import Gsc.Naming.TokenTable
import Mathlib.Data.List.Nodup

/-! # Token tables over whole runs

A table comes about by insertions, some of which are refused, and by taking over the pairs of other
tables. Each step is described by the pairs alone: a new pair takes the place of those that share
its number or its name. Where many pairs are taken over at once, no two of them share anything, so
that their order does not matter.
-/

namespace Gsc

namespace Pairing

variable {p : Pairing} {token : UInt32} {name : String}

/-- The pairs share neither numbers nor names. -/
def Apart (pairs : List (UInt32 × String)) : Prop :=
  pairs.Pairwise fun a b => a.1 ≠ b.1 ∧ a.2 ≠ b.2

/-- The new pairs, and those of the old pairs that share nothing with a new one. -/
theorem Valid.names_bindAll_eq_some_iff (h : p.Valid) {pairs : List (UInt32 × String)}
    (hpositive : ∀ pair ∈ pairs, pair.1 ≠ 0) (hapart : Apart pairs) :
    (p.bindAll pairs).names.get? token = some name ↔
      (token, name) ∈ pairs ∨
        p.names.get? token = some name ∧ ∀ pair ∈ pairs, pair.1 ≠ token ∧ pair.2 ≠ name := by
  induction pairs generalizing p with
  | nil => simp [Pairing.bindAll]
  | cons pair rest ih =>
      obtain ⟨hfirst, hrest⟩ := List.pairwise_cons.1 hapart
      have hbound := h.bind (hpositive pair List.mem_cons_self) pair.2
      have hrun : p.bindAll (pair :: rest) = (p.bind pair.1 pair.2).bindAll rest := rfl
      rw [hrun, ih hbound (fun q hq => hpositive q (List.mem_cons_of_mem _ hq)) hrest,
        h.names_bind_eq_some_iff, List.mem_cons, List.forall_mem_cons, Prod.ext_iff]
      constructor
      · rintro (hmem | ⟨hnew | ⟨ht, hn, hold⟩, hfree⟩)
        · exact .inl (.inr hmem)
        · exact .inl (.inl hnew)
        · exact .inr ⟨hold, ⟨ht.symm, hn.symm⟩, hfree⟩
      · rintro ((⟨rfl, rfl⟩ | hmem) | ⟨hold, ⟨ht, hn⟩, hfree⟩)
        · exact .inr ⟨.inl ⟨rfl, rfl⟩, fun q hq => ⟨(hfirst q hq).1.symm, (hfirst q hq).2.symm⟩⟩
        · exact .inl hmem
        · exact .inr ⟨.inr ⟨ht.symm, hn.symm, hold⟩, hfree⟩

end Pairing

namespace TokenTable

variable {t u : TokenTable} {token : UInt32} {name : String}

theorem name?_eq_some_iff : t.name? token = some name ↔ t.token? name = some token :=
  t.valid.inverse token name

theorem name?_zero (t : TokenTable) : t.name? 0 = none := t.valid.positive

theorem mem_pairs_iff : (token, name) ∈ t.pairs ↔ t.name? token = some name :=
  Dictionary.mem_entries_iff

theorem nodup_pairs (t : TokenTable) : t.pairs.Nodup := .of_map _ t.pairing.names.distinct

/-! ## Equal tables -/

/-- Two tables that cannot be told apart. -/
structure Same (t u : TokenTable) : Prop where
  version : t.version = u.version
  name? : ∀ token, t.name? token = u.name? token
  token? : ∀ name, t.token? name = u.token? name
  pairs : t.pairs.Perm u.pairs

theorem same_of_name? (hversion : t.version = u.version)
    (h : ∀ token name, t.name? token = some name ↔ u.name? token = some name) : t.Same u where
  version := hversion
  name? token := Option.ext (h token)
  token? name := Option.ext fun token => by rw [← name?_eq_some_iff, h, name?_eq_some_iff]
  pairs := by
    rw [List.perm_ext_iff_of_nodup t.nodup_pairs u.nodup_pairs]
    intro pair
    rw [mem_pairs_iff, h, mem_pairs_iff]

/-! ## Insertions -/

/-- A number cannot get a name: it is 0, or it has another name. -/
def Refuses (t : TokenTable) (token : UInt32) (name : String) : Prop :=
  token = 0 ∨ ∃ first, t.name? token = some first ∧ first ≠ name

/-- An insertion is refused, or it binds the number to the name. -/
theorem insert_cases (t : TokenTable) (token : UInt32) (name : String) :
    (t.Refuses token name ∧ ∃ e, t.insert token name = .error e) ∨
    ¬ t.Refuses token name ∧ ∃ u, t.insert token name = .ok u ∧ u.version = t.version ∧
      u.pairing = t.pairing.bind token name := by
  unfold insert Refuses
  by_cases hzero : token = 0
  · exact .inl ⟨.inl hzero, by simp [hzero]⟩
  · rw [dif_neg hzero]
    cases hname : t.name? token with
    | none => exact .inr ⟨by simp [hzero], _, rfl, rfl, rfl⟩
    | some first =>
        by_cases hfirst : first = name
        · exact .inr ⟨by simp [hzero, hfirst], _, if_pos hfirst, rfl, rfl⟩
        · exact .inl ⟨by simp [hfirst], _, if_neg hfirst⟩

theorem exists_error_insert_iff :
    (∃ e, t.insert token name = .error e) ↔ t.Refuses token name := by
  rcases t.insert_cases token name with ⟨hrefuses, herror⟩ | ⟨hnot, u, hu, -⟩
  · exact iff_of_true herror hrefuses
  · refine iff_of_false ?_ hnot
    rintro ⟨e, he⟩
    cases he.symm.trans hu

/-- The new pair, and the old pairs with other names. -/
theorem name?_of_insert (h : t.insert token name = .ok u) {token' : UInt32} {name' : String} :
    u.name? token' = some name' ↔
      token' = token ∧ name' = name ∨ name' ≠ name ∧ t.name? token' = some name' := by
  rcases t.insert_cases token name with ⟨-, e, he⟩ | ⟨hnot, u', hu', -, hpairing⟩
  · cases he.symm.trans h
  · cases hu'.symm.trans h
    rw [name?, hpairing, t.valid.names_bind_eq_some_iff]
    constructor
    · rintro (hnew | ⟨-, hname, hold⟩)
      · exact .inl hnew
      · exact .inr ⟨hname, hold⟩
    · rintro (hnew | ⟨hname, hold⟩)
      · exact .inl hnew
      · refine .inr ⟨?_, hname, hold⟩
        rintro rfl
        exact hnot (.inr ⟨name', hold, hname⟩)

/-! ## Taking over another table -/

/-- Take over the pairs of another table in some order. -/
def mergeIn (t other : TokenTable) (order : List (UInt32 × String))
    (h : order.Perm other.pairs) : TokenTable :=
  t.bindAll order fun _ hpair => other.ne_zero_of_mem_pairs (h.mem_iff.1 hpair)

theorem mergeIn_pairs (t other : TokenTable) :
    t.mergeIn other other.pairs (.refl _) = t.merge other :=
  rfl

theorem apart_of_perm {order : List (UInt32 × String)} (h : order.Perm t.pairs) :
    Pairing.Apart order := by
  refine (h.nodup_iff.2 t.nodup_pairs).imp_of_mem ?_
  rintro ⟨token, name⟩ ⟨token', name'⟩ hmem hmem' hne
  rw [h.mem_iff, mem_pairs_iff] at hmem hmem'
  constructor
  · rintro rfl
    cases hmem.symm.trans hmem'
    exact hne rfl
  · rintro rfl
    rw [name?_eq_some_iff] at hmem hmem'
    cases hmem.symm.trans hmem'
    exact hne rfl

/-- All pairs of the other table, and those of the first that share nothing with it. -/
theorem name?_mergeIn (t other : TokenTable) {order : List (UInt32 × String)}
    (h : order.Perm other.pairs) :
    (t.mergeIn other order h).name? token = some name ↔
      other.name? token = some name ∨
        t.name? token = some name ∧ other.name? token = none ∧ other.token? name = none := by
  have hpositive : ∀ pair ∈ order, pair.1 ≠ 0 :=
    fun _ hpair => other.ne_zero_of_mem_pairs (h.mem_iff.1 hpair)
  have hfree : (∀ pair ∈ order, pair.1 ≠ token ∧ pair.2 ≠ name) ↔
      other.name? token = none ∧ other.token? name = none := by
    simp only [h.mem_iff, Prod.forall, mem_pairs_iff, Option.eq_none_iff_forall_ne_some, ne_eq]
    constructor
    · intro hall
      refine ⟨fun n hn => (hall token n hn).1 rfl, fun t' ht' => ?_⟩
      exact (hall t' name (name?_eq_some_iff.2 ht')).2 rfl
    · rintro ⟨htoken, hname⟩ t' n' hpair
      constructor
      · rintro rfl
        exact htoken n' hpair
      · rintro rfl
        exact hname t' (name?_eq_some_iff.1 hpair)
  have hmem : (token, name) ∈ order ↔ other.name? token = some name :=
    h.mem_iff.trans mem_pairs_iff
  rw [← hfree, ← hmem]
  exact t.valid.names_bindAll_eq_some_iff hpositive (apart_of_perm h)

theorem name?_merge (t other : TokenTable) :
    (t.merge other).name? token = some name ↔
      other.name? token = some name ∨
        t.name? token = some name ∧ other.name? token = none ∧ other.token? name = none := by
  rw [← mergeIn_pairs, name?_mergeIn]

/-- Taking over a table gives the same in whatever order its pairs come: all of them, and those of
the first table that share nothing with them. Once is enough. -/
theorem merge_in_any_order (a b : TokenTable) {order : List (UInt32 × String)}
    (h : order.Perm b.pairs) :
    (a.mergeIn b order h).Same (a.merge b) ∧
    (∀ token name, (a.mergeIn b order h).name? token = some name ↔
      b.name? token = some name ∨
        a.name? token = some name ∧ b.name? token = none ∧ b.token? name = none) ∧
    ∀ (again : List (UInt32 × String)) (hagain : again.Perm b.pairs),
      ((a.mergeIn b order h).mergeIn b again hagain).Same (a.mergeIn b order h) := by
  refine ⟨same_of_name? rfl fun token name => ?_, fun token name => name?_mergeIn a b h,
    fun again hagain => same_of_name? rfl fun token name => ?_⟩
  · rw [name?_mergeIn, name?_merge]
  · rw [name?_mergeIn, name?_mergeIn]
    constructor
    · rintro (hb | ⟨hmerged, -, -⟩)
      · exact .inl hb
      · exact hmerged
    · rintro (hb | ⟨ha, hfree⟩)
      · exact .inl hb
      · exact .inr ⟨.inr ⟨ha, hfree⟩, hfree⟩

def firstThree : TokenTable :=
  (empty "three").bindAll [(1, "x"), (2, "y"), (3, "z")] (by decide)

/-- Two names change places, and a third one moves to a new number. -/
def crossing : TokenTable :=
  (empty "crossing").bindAll [(1, "y"), (2, "x"), (4, "z")] (by decide)

theorem merge_crossing_reversed :
    crossing.pairs = [(4, "z"), (2, "x"), (1, "y")] ∧
    ∃ h : [(1, "y"), (2, "x"), (4, "z")].Perm crossing.pairs,
      (firstThree.mergeIn crossing _ h).Same (firstThree.merge crossing) ∧
      (firstThree.mergeIn crossing _ h).name? 3 = none ∧
      (firstThree.mergeIn crossing _ h).name? 1 = some "y" ∧
      ((firstThree.mergeIn crossing _ h).merge crossing).Same
        (firstThree.mergeIn crossing _ h) := by
  have hpairs : crossing.pairs = [(4, "z"), (2, "x"), (1, "y")] := by decide
  have h : [(1, "y"), (2, "x"), (4, "z")].Perm crossing.pairs := by
    rw [hpairs]
    decide
  obtain ⟨hsame, hname, hagain⟩ := merge_in_any_order firstThree crossing h
  refine ⟨hpairs, h, hsame, ?_, ?_, hagain _ (.refl _)⟩
  · rw [hsame.name?]
    decide
  · exact (hname 1 "y").2 (.inl (by decide))

/-! ## Runs -/

inductive History where
  | start (version : String)
  | insert (past : History) (token : UInt32) (name : String)
  | merge (past other : History)

namespace History

/-- The table that a history leads to. It stays as it is where an insertion is refused. -/
def table : History → TokenTable
  | start version => .empty version
  | insert past token name =>
    match past.table.insert token name with
    | .ok t => t
    | .error _ => past.table
  | merge past other => past.table.merge other.table

/-- The pairs that a history leaves, said without a table. -/
def Leaves : History → UInt32 → String → Prop
  | start _, _, _ => False
  | insert past token name, t, n =>
    let refused := token = 0 ∨ ∃ first, past.Leaves token first ∧ first ≠ name
    refused ∧ past.Leaves t n ∨
      ¬ refused ∧ (t = token ∧ n = name ∨ n ≠ name ∧ past.Leaves t n)
  | merge past other, t, n =>
    other.Leaves t n ∨
      past.Leaves t n ∧ (∀ n', ¬ other.Leaves t n') ∧ ∀ t', ¬ other.Leaves t' n

theorem table_insert_of_error {h : History} {token : UInt32} {name : String} {e : TokenError}
    (he : h.table.insert token name = .error e) : (h.insert token name).table = h.table := by
  simp only [table, he]

theorem table_insert_of_ok {h : History} {token : UInt32} {name : String} {t : TokenTable}
    (ht : h.table.insert token name = .ok t) : (h.insert token name).table = t := by
  simp only [table, ht]

/-- A table holds what its history leaves. -/
theorem name?_table (h : History) (token : UInt32) (name : String) :
    h.table.name? token = some name ↔ h.Leaves token name := by
  induction h generalizing token name with
  | start version =>
      refine ⟨fun h => ?_, False.elim⟩
      cases h
  | insert past token' name' ih =>
      simp only [Leaves, ← ih]
      change _ ↔ past.table.Refuses token' name' ∧ _ ∨ ¬ past.table.Refuses token' name' ∧ _
      rcases past.table.insert_cases token' name' with ⟨hyes, e, he⟩ | ⟨hno, t, ht, -⟩
      · simp [table_insert_of_error he, hyes]
      · simp [table_insert_of_ok ht, hno, name?_of_insert ht]
  | merge past other ihPast ihOther =>
      have hinverse : ∀ token', other.table.token? name = some token' ↔
          other.table.name? token' = some name := fun _ => name?_eq_some_iff.symm
      simp only [Leaves, table, name?_merge, ← ihPast, ← ihOther,
        Option.eq_none_iff_forall_ne_some, ne_eq, hinverse]

/-- Over whole runs, numbers and names are paired one to one as the history says, and number 0 has
no name. An insertion is refused exactly if the number is 0 or has another name, and then nothing
changes. Else the name moves to the number, and all other pairs stay. -/
theorem table_one_to_one (h : History) :
    (∀ token name, (h.table.name? token = some name ↔ h.table.token? name = some token) ∧
      (h.table.name? token = some name ↔ h.Leaves token name)) ∧
    h.table.name? 0 = none ∧
    ∀ token name,
      ((∃ e, h.table.insert token name = .error e) ↔
        token = 0 ∨ ∃ first, h.table.name? token = some first ∧ first ≠ name) ∧
      (∀ e, h.table.insert token name = .error e → (h.insert token name).table = h.table) ∧
      ∀ t, h.table.insert token name = .ok t →
        (h.insert token name).table = t ∧ t.name? token = some name ∧
        (∀ old, h.table.token? name = some old → old ≠ token → t.name? old = none) ∧
        ∀ token' name', name' ≠ name →
          (t.name? token' = some name' ↔ h.table.name? token' = some name') := by
  refine ⟨fun token name => ⟨name?_eq_some_iff, h.name?_table token name⟩, h.table.name?_zero,
    fun token name => ⟨exists_error_insert_iff, fun e => table_insert_of_error, fun t ht => ?_⟩⟩
  refine ⟨table_insert_of_ok ht, (name?_of_insert ht).2 (.inl ⟨rfl, rfl⟩), ?_, ?_⟩
  · intro old hold hne
    rw [Option.eq_none_iff_forall_ne_some]
    intro name' hname'
    rcases (name?_of_insert ht).1 hname' with ⟨heq, -⟩ | ⟨hother, hbefore⟩
    · exact hne heq
    · cases hbefore.symm.trans (name?_eq_some_iff.2 hold)
      exact hother rfl
  · intro token' name' hne
    rw [name?_of_insert ht]
    simp [hne]

/-- A name moves to a new number, and then a table that is taken over swaps the two numbers. -/
def swapped : History :=
  merge (insert (insert (insert (start "first") 7 "a") 8 "b") 9 "a")
    (insert (insert (start "second") 9 "b") 8 "a")

theorem table_one_to_one_swapped :
    swapped.table.name? 8 = some "a" ∧ swapped.table.token? "a" = some 8 ∧
    (∃ e, swapped.table.insert 8 "c" = .error e ∧
      (swapped.insert 8 "c").table = swapped.table) ∧
    ∃ t, swapped.table.insert 7 "a" = .ok t ∧ t.name? 7 = some "a" ∧ t.name? 8 = none ∧
      t.name? 9 = some "b" := by
  obtain ⟨hpairs, -, hinsert⟩ := swapped.table_one_to_one
  have hname : swapped.table.name? 8 = some "a" := by decide
  obtain ⟨e, he⟩ := (hinsert 8 "c").1.2 (.inr ⟨"a", hname, by decide⟩)
  obtain ⟨t, ht⟩ : ∃ t, swapped.table.insert 7 "a" = .ok t := ⟨_, rfl⟩
  obtain ⟨-, hnew, hold, hother⟩ := (hinsert 7 "a").2.2 t ht
  refine ⟨hname, (hpairs 8 "a").1.1 hname, ⟨e, he, (hinsert 8 "c").2.1 e he⟩, t, ht, hnew, ?_, ?_⟩
  · exact hold 8 ((hpairs 8 "a").1.1 hname) (by decide)
  · exact (hother 9 "b" (by decide)).2 (by decide)

end History

end TokenTable

end Gsc
