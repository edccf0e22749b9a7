import Gsc.Naming.Identifier
import Gsc.Proofs.Digits
import Gsc.Proofs.Naming.Tables

/-! # Numbers that stand for scripts

An identifier that is a decimal integer, but for white space around it, is looked up in the token
table. All other texts are names themselves. An integer that does not fit in 64 bits with a sign
passes for such a text.
-/

namespace Gsc

/-! ## Reading -/

namespace Identifier

theorem digits?_eq_some_iff {chars : List Char} {n : Nat} :
    digits? chars = some n ↔ Denotes chars n := by
  have hvalue := digitsValue_eq_ofDigits chars
  rw [Binary32.digitsValue] at hvalue
  cases chars with
  | nil =>
      refine ⟨fun h => ?_, fun h => (h.ne_nil rfl).elim⟩
      cases h
  | cons c rest =>
      simp only [digits?, hvalue]
      constructor
      · intro h
        split at h
        · rename_i hdigits
          cases h
          exact ⟨by simp, List.all_eq_true.1 hdigits, rfl⟩
        · cases h
      · intro h
        rw [if_pos (List.all_eq_true.2 h.digits), h.value]

theorem integer?_eq_some_iff {chars : List Char} {v : Int} :
    integer? chars = some v ↔ Spells chars v := by
  constructor
  · intro h
    unfold integer? at h
    split at h
    all_goals
      obtain ⟨n, hn, rfl⟩ := Option.map_eq_some_iff.1 h
      rw [digits?_eq_some_iff] at hn
    · exact .minus hn
    · exact .plus hn
    · exact .plain hn
  · intro h
    cases h with
    | plus h => rw [integer?, digits?_eq_some_iff.2 h]; rfl
    | minus h => rw [integer?, digits?_eq_some_iff.2 h]; rfl
    | plain h =>
        unfold integer?
        split
        · exact absurd (h.digits '-' List.mem_cons_self) (by decide)
        · exact absurd (h.digits '+' List.mem_cons_self) (by decide)
        · rw [digits?_eq_some_iff.2 h]
          rfl

theorem integer?_trim_eq_some_iff {s : String} {v : Int} :
    integer? (Text.trim s.toList) = some v ↔ Numeral s v := by
  rw [integer?_eq_some_iff]
  constructor
  · intro h
    obtain ⟨front, back, heq, hfront, hback⟩ := Text.exists_append_trim s.toList
    exact ⟨front, _, back, heq, hfront, hback, h⟩
  · rintro ⟨front, body, back, heq, hfront, hback, h⟩
    rwa [heq, Text.trim_append h.solid.1 hfront h.solid.2 hback]

theorem inWord_iff {v : Int} :
    inWord v = true ↔ -9223372036854775808 ≤ v ∧ v ≤ 9223372036854775807 :=
  decide_eq_true_iff

theorem token_parse_eq_some_iff {s : String} {v : Int} :
    (parse s).token = some v ↔
      Numeral s v ∧ -9223372036854775808 ≤ v ∧ v ≤ 9223372036854775807 := by
  rw [parse, Option.filter_eq_some_iff, integer?_trim_eq_some_iff, inWord_iff]

end Identifier

/-! ## Looking up -/

def TokenTable.Binds (t : TokenTable) (v : Int) (name : String) : Prop :=
  1 ≤ v ∧ v ≤ 4294967295 ∧ ∃ token : UInt32, (token.toNat : Int) = v ∧ t.name? token = some name

theorem TokenTable.Binds.unique {t : TokenTable} {v : Int} {name name' : String}
    (h : t.Binds v name) (h' : t.Binds v name') : name = name' := by
  obtain ⟨-, -, token, rfl, htoken⟩ := h
  obtain ⟨-, -, token', heq, htoken'⟩ := h'
  obtain rfl : token' = token := UInt32.toNat_inj.1 (Int.ofNat_inj.1 heq)
  exact Option.some.inj (htoken.symm.trans htoken')

/-- A number of any size is a name of the table's, or unknown. -/
theorem resolve_of_token {identifier : Identifier} {v : Int} (h : identifier.token = some v)
    (table : TokenTable) :
    (∃ name, resolve identifier table = .ok name ∧ table.Binds v name) ∨
      resolve identifier table = .error (.unknownToken v) ∧ ∀ name, ¬ table.Binds v name := by
  simp only [resolve, h]
  by_cases hrange : 0 ≤ v ∧ v ≤ 4294967295
  · rw [if_pos hrange]
    have htoken : (v.toNat.toUInt32.toNat : Int) = v := by
      rw [Nat.toUInt32_eq, UInt32.toNat_ofNat']
      omega
    generalize v.toNat.toUInt32 = token at htoken
    cases hname : table.name? token with
    | some name =>
        have hzero : token ≠ 0 := by
          rintro rfl
          rw [table.name?_zero] at hname
          cases hname
        have hpos : token.toNat ≠ 0 := fun heq => hzero (UInt32.toNat_inj.1 heq)
        exact .inl ⟨name, rfl, by omega, hrange.2, token, htoken, hname⟩
    | none =>
        refine .inr ⟨rfl, ?_⟩
        rintro name ⟨-, -, token', heq, hname'⟩
        obtain rfl : token' = token := UInt32.toNat_inj.1 (Int.ofNat_inj.1 (heq.trans htoken.symm))
        cases hname.symm.trans hname'
  · rw [if_neg hrange]
    refine .inr ⟨rfl, ?_⟩
    rintro name ⟨hlow, hhigh, -⟩
    exact hrange ⟨by omega, hhigh⟩

theorem resolve_of_no_token {identifier : Identifier} (h : identifier.token = none)
    (table : TokenTable) : resolve identifier table = .ok identifier.name := by
  simp only [resolve, h]

/-- An identifier that is a decimal integer of 64 bits is the name that the table has for it, if the
integer is a number of the table, and unknown else. All other identifiers are names themselves. -/
theorem resolve_parse_numeral (table : TokenTable) (s : String) :
    (∀ v, Numeral s v → -9223372036854775808 ≤ v → v ≤ 9223372036854775807 →
      (∀ name, resolve (.parse s) table = .ok name ↔ table.Binds v name) ∧
      (resolve (.parse s) table = .error (.unknownToken v) ↔ ∀ name, ¬ table.Binds v name)) ∧
    ((∀ v, Numeral s v → v < -9223372036854775808 ∨ 9223372036854775807 < v) →
      resolve (.parse s) table = .ok s) := by
  constructor
  · intro v hv hlow hhigh
    have htoken := Identifier.token_parse_eq_some_iff.2 ⟨hv, hlow, hhigh⟩
    rcases resolve_of_token htoken table with ⟨found, hok, hbinds⟩ | ⟨herror, hnone⟩
    · rw [hok]
      refine ⟨fun name => ⟨?_, ?_⟩, iff_of_false (by simp) fun hnone => hnone found hbinds⟩
      · rintro ⟨⟩
        exact hbinds
      · intro hname
        rw [hbinds.unique hname]
    · rw [herror]
      exact ⟨fun name => iff_of_false (by simp) (hnone name), iff_of_true rfl hnone⟩
  · intro hbeyond
    refine resolve_of_no_token (Option.eq_none_iff_forall_ne_some.2 fun v hv => ?_) table
    obtain ⟨hnumeral, hlow, hhigh⟩ := Identifier.token_parse_eq_some_iff.1 hv
    have houtside := hbeyond v hnumeral
    omega

def onlySeven : TokenTable := (TokenTable.empty "").bindAll [(7, "maps/mp/_load")] (by decide)

/-- Signs, zeros in front and white space do not count. A number that would wrap around to 7 is
unknown, and so is a negative one, while a text that only begins with a number is a name. -/
theorem resolve_parse_numeral_seven :
    Numeral " +007\n" 7 ∧ resolve (.parse " +007\n") onlySeven = .ok "maps/mp/_load" ∧
    Numeral "4294967303" 4294967303 ∧
      resolve (.parse "4294967303") onlySeven = .error (.unknownToken 4294967303) ∧
    Numeral "-7" (-7) ∧ resolve (.parse "-7") onlySeven = .error (.unknownToken (-7)) ∧
    resolve (.parse "7_up") onlySeven = .ok "7_up" := by
  have hplus : Numeral " +007\n" 7 := Identifier.integer?_trim_eq_some_iff.1 (by decide +kernel)
  have hwrap : Numeral "4294967303" 4294967303 :=
    Identifier.integer?_trim_eq_some_iff.1 (by decide +kernel)
  have hminus : Numeral "-7" (-7) := Identifier.integer?_trim_eq_some_iff.1 (by decide +kernel)
  have hwrapped := (resolve_parse_numeral onlySeven "4294967303").1 _ hwrap (by decide) (by decide)
  have hnegative := (resolve_parse_numeral onlySeven "-7").1 _ hminus (by decide) (by decide)
  have hname : Identifier.integer? (Text.trim "7_up".toList) = none := by decide +kernel
  refine ⟨hplus, ?_, hwrap, hwrapped.2.2 ?_, hminus, hnegative.2.2 ?_,
    (resolve_parse_numeral onlySeven "7_up").2 fun v hv => ?_⟩
  · exact (((resolve_parse_numeral onlySeven " +007\n").1 _ hplus (by decide) (by decide)).1 _).2
      ⟨by decide, by decide, 7, by decide, by decide⟩
  · rintro name ⟨-, hhigh, -⟩
    exact absurd hhigh (by decide)
  · rintro name ⟨hlow, -, -⟩
    exact absurd hlow (by decide)
  · cases hname.symm.trans (Identifier.integer?_trim_eq_some_iff.2 hv)

/-- The first integer beyond 64 bits passes for a name. -/
theorem resolve_beyond_word :
    Numeral "9223372036854775808" 9223372036854775808 ∧
      resolve (.parse "9223372036854775808") (.empty "") = .ok "9223372036854775808" :=
  ⟨Identifier.integer?_trim_eq_some_iff.1 (by decide +kernel),
    resolve_of_no_token (by decide +kernel) _⟩

end Gsc
