import Gsc.Data.Dictionary
import Gsc.Data.Toml.Parse

/-! # Token tables

Scripts can be asked for by number. A table gives each number at most one name and each name at
most one number. Number 0 is never given.
-/

namespace Gsc

inductive TokenError where
  | unreadable (error : Toml.Error)
  | duplicate (token : UInt32) (first second : String)
  | reserved (name : String)
  deriving DecidableEq, Repr

def TokenError.message : TokenError → String
  | unreadable error => "invalid table: " ++ error.message
  | duplicate token first second =>
    "token " ++ toString token.toNat ++ " is assigned to both '" ++ first ++ "' and '" ++ second
      ++ "'"
  | reserved name => "token 0 is reserved (assigned to '" ++ name ++ "')"

structure Pairing where
  names : Dictionary UInt32 String
  tokens : Dictionary String UInt32

namespace Pairing

def empty : Pairing := ⟨.empty, .empty⟩

/-- Pair a number with a name. Both give up what they were paired with. -/
def bind (p : Pairing) (token : UInt32) (name : String) : Pairing :=
  let tokens := match p.names.get? token with
    | some old => if old = name then p.tokens else p.tokens.erase old
    | none => p.tokens
  let names := p.names.insert token name
  { names := match tokens.get? name with
      | some old => if old = token then names else names.erase old
      | none => names
    tokens := tokens.insert name token }

def bindAll (p : Pairing) (pairs : List (UInt32 × String)) : Pairing :=
  pairs.foldl (fun p pair => p.bind pair.1 pair.2) p

/-- Both dictionaries hold the same pairs, and none of number 0. -/
structure Valid (p : Pairing) : Prop where
  inverse : ∀ token name, p.names.get? token = some name ↔ p.tokens.get? name = some token
  positive : p.names.get? 0 = none

theorem valid_empty : empty.Valid := ⟨by simp [empty], by simp [empty]⟩

theorem tokens_bind (p : Pairing) (token : UInt32) (name n : String) :
    (p.bind token name).tokens.get? n
      = if n = name then some token
        else if p.names.get? token = some n then none else p.tokens.get? n := by
  simp only [bind, Dictionary.get?_insert]
  cases p.names.get? token with
  | none => simp
  | some old => grind [Dictionary.get?_erase]

theorem names_bind (p : Pairing) (token : UInt32) (name : String) (t : UInt32) :
    (p.bind token name).names.get? t
      = if t = token then some name
        else if p.tokens.get? name = some t then none else p.names.get? t := by
  -- the number that the name had is still found, whatever the number's old name was
  have hold : (match p.names.get? token with
      | some old => if old = name then p.tokens else p.tokens.erase old
      | none => p.tokens).get? name = p.tokens.get? name := by
    cases p.names.get? token with
    | none => rfl
    | some old => grind [Dictionary.get?_erase]
  simp only [bind, hold]
  cases p.tokens.get? name with
  | none => simp [Dictionary.get?_insert]
  | some old => grind [Dictionary.get?_insert, Dictionary.get?_erase]

namespace Valid

variable {p : Pairing} {token : UInt32} {name : String}

/-- The new pair, and those of the old pairs that share neither the number nor the name. -/
theorem names_bind_eq_some_iff (h : p.Valid) {t : UInt32} {n : String} :
    (p.bind token name).names.get? t = some n ↔
      t = token ∧ n = name ∨ t ≠ token ∧ n ≠ name ∧ p.names.get? t = some n := by
  simp only [names_bind, ← h.inverse t name]
  by_cases ht : t = token
  · simp [ht, eq_comm]
  · by_cases hname : p.names.get? t = some name
    · simp [ht, hname, eq_comm]
    · have hne : p.names.get? t = some n → n ≠ name := by
        rintro hn rfl
        exact hname hn
      simpa [ht, hname] using hne

theorem tokens_bind_eq_some_iff (h : p.Valid) {t : UInt32} {n : String} :
    (p.bind token name).tokens.get? n = some t ↔
      t = token ∧ n = name ∨ t ≠ token ∧ n ≠ name ∧ p.names.get? t = some n := by
  simp only [tokens_bind, h.inverse token n, h.inverse t n]
  by_cases hn : n = name
  · simp [hn, eq_comm]
  · by_cases htoken : p.tokens.get? n = some token
    · simp [hn, htoken, eq_comm]
    · have hne : p.tokens.get? n = some t → t ≠ token := by
        rintro ht rfl
        exact htoken ht
      simpa [hn, htoken] using hne

theorem bind (h : p.Valid) (ht : token ≠ 0) (name : String) : (p.bind token name).Valid where
  inverse _ _ := h.names_bind_eq_some_iff.trans h.tokens_bind_eq_some_iff.symm
  positive := by
    rw [names_bind, if_neg ht.symm, h.positive, ite_self]

theorem bindAll (h : p.Valid) {pairs : List (UInt32 × String)}
    (ht : ∀ pair ∈ pairs, pair.1 ≠ 0) : (p.bindAll pairs).Valid := by
  induction pairs generalizing p with
  | nil => exact h
  | cons pair rest ih =>
      exact ih (h.bind (ht pair List.mem_cons_self) pair.2)
        fun q hq => ht q (List.mem_cons_of_mem _ hq)

end Valid

end Pairing

structure TokenTable where
  version : String
  pairing : Pairing
  valid : pairing.Valid

namespace TokenTable

def empty (version : String) : TokenTable := ⟨version, .empty, Pairing.valid_empty⟩

def size (t : TokenTable) : Nat := t.pairing.names.size

def isEmpty (t : TokenTable) : Bool := t.pairing.names.isEmpty

def name? (t : TokenTable) (token : UInt32) : Option String := t.pairing.names.get? token

def token? (t : TokenTable) (name : String) : Option UInt32 := t.pairing.tokens.get? name

def pairs (t : TokenTable) : List (UInt32 × String) := t.pairing.names.entries

theorem ne_zero_of_mem_pairs (t : TokenTable) {pair : UInt32 × String} (h : pair ∈ t.pairs) :
    pair.1 ≠ 0 := by
  intro hzero
  have hname := Dictionary.mem_entries_iff.1 h
  rw [hzero, t.valid.positive] at hname
  cases hname

/-- Give a name its number. A number that has another name is refused. -/
def insert (t : TokenTable) (token : UInt32) (name : String) : Except TokenError TokenTable :=
  if h : token = 0 then .error (.reserved name)
  else
    let bound : TokenTable := ⟨t.version, t.pairing.bind token name, t.valid.bind h name⟩
    match t.name? token with
    | none => .ok bound
    | some first => if first = name then .ok bound else .error (.duplicate token first name)

def insertAll (t : TokenTable) : List (String × UInt32) → Except TokenError TokenTable
  | [] => .ok t
  | (name, token) :: rest =>
    match t.insert token name with
    | .ok t => t.insertAll rest
    | .error e => .error e

/-- Pair numbers with names one after the other, whatever they were paired with. -/
def bindAll (t : TokenTable) (pairs : List (UInt32 × String)) (h : ∀ pair ∈ pairs, pair.1 ≠ 0) :
    TokenTable :=
  ⟨t.version, t.pairing.bindAll pairs, t.valid.bindAll h⟩

/-- Take over all pairs of another table. Where they clash, that table wins. -/
def merge (t other : TokenTable) : TokenTable :=
  t.bindAll other.pairs fun _ => other.ne_zero_of_mem_pairs

def readDocument (text : String) : Except Toml.Error (String × List (String × UInt32)) := do
  let entries ← Toml.parse text
  let version ← Toml.Entries.read entries "version" (.ok "") (Toml.Value.asText "version")
  let tokens ← Toml.Entries.read entries "tokens" (.ok [])
    (Toml.Value.asMap "tokens" fun key v => (v.asNat key UInt32.size).map Nat.toUInt32)
  return (version, tokens)

def ofToml (text : String) : Except TokenError TokenTable :=
  match readDocument text with
  | .ok (version, tokens) => (empty version).insertAll tokens
  | .error e => .error (.unreadable e)

end TokenTable

end Gsc
