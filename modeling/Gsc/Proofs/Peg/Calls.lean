import Gsc.Proofs.Peg.Outcomes
import Mathlib.Data.List.Chain

/-! # Calls within calls

To match a pattern its parts are matched, at the same place or where the parts in front of them have
ended. `Calls` says which calls a call makes. The matcher runs out of a bound exactly if as many
calls nest as the bound allows.
-/

namespace Gsc.Peg

variable {R : Type}

/-- Match a pattern, or go on to repeat one that has matched. -/
inductive Task (R : Type) where
  | once (p : Pattern R)
  | more (p : Pattern R)

/-- What the matcher is called for, with which spacing, and where. -/
structure Call (R : Type) where
  task : Task R
  spacing : Spacing
  place : Cursor

def Matches (g : Grammar R) (s : Spacing) (p : Pattern R) (c after : Cursor) : Prop :=
  ∃ n trees, outcome g n p s c = .matched trees after

def Misses (g : Grammar R) (s : Spacing) (p : Pattern R) (c : Cursor) : Prop :=
  ∃ n, outcome g n p s c = .failed

/-- The calls that a call makes, of which each needs what the ones before it came to. -/
inductive Calls (g : Grammar R) : Call R → Call R → Prop
  | rule {r s c} : Calls g ⟨.once (.rule r), s, c⟩ ⟨.once (g.body r), (g.kind r).inside s, c⟩
  | first {p q s c} : Calls g ⟨.once (.seq p q), s, c⟩ ⟨.once p, s, c⟩
  | between {p q s c after} (hp : Matches g s p c after) :
      Calls g ⟨.once (.seq p q), s, c⟩ ⟨.once .blank, s, after⟩
  | second {p q s c after next} (hp : Matches g s p c after) (hb : Matches g s .blank after next) :
      Calls g ⟨.once (.seq p q), s, c⟩ ⟨.once q, s, next⟩
  | left {p q s c} : Calls g ⟨.once (.alt p q), s, c⟩ ⟨.once p, s, c⟩
  | right {p q s c} (hp : Misses g s p c) : Calls g ⟨.once (.alt p q), s, c⟩ ⟨.once q, s, c⟩
  | opt {p s c} : Calls g ⟨.once (.opt p), s, c⟩ ⟨.once p, s, c⟩
  | star {p s c} : Calls g ⟨.once (.star p), s, c⟩ ⟨.once p, s, c⟩
  | goOn {p s c after} (hp : Matches g s p c after) :
      Calls g ⟨.once (.star p), s, c⟩ ⟨.more p, s, after⟩
  | notAhead {p s c} : Calls g ⟨.once (.notAhead p), s, c⟩ ⟨.once p, s, c⟩
  | blank {c} : Calls g ⟨.once .blank, .free, c⟩ ⟨.once g.blank, .atomic, c⟩
  | before {p s c} : Calls g ⟨.more p, s, c⟩ ⟨.once .blank, s, c⟩
  | again {p s c next} (hb : Matches g s .blank c next) :
      Calls g ⟨.more p, s, c⟩ ⟨.once p, s, next⟩
  | onward {p s c next after} (hb : Matches g s .blank c next) (hp : Matches g s p next after) :
      Calls g ⟨.more p, s, c⟩ ⟨.more p, s, after⟩

/-- One turn of a repetition, from where the repeated pattern was tried to where it ended. -/
inductive Turns (g : Grammar R) : Call R → Cursor → Cursor → Prop
  | first {p s c after} (hp : Matches g s p c after) : Turns g ⟨.once (.star p), s, c⟩ c after
  | again {p s c next after} (hb : Matches g s .blank c next) (hp : Matches g s p next after) :
      Turns g ⟨.more p, s, c⟩ next after

/-! ## Running out -/

variable {g : Grammar R} {n : Nat} {p : Pattern R} {s : Spacing} {c after : Cursor}

/-- The matcher runs out when it is called with the bound `n`. -/
def Call.RunsOut (g : Grammar R) (n : Nat) : Call R → Prop
  | ⟨.once p, s, c⟩ => outcome g n p s c = .exhausted
  | ⟨.more p, s, c⟩ => outcomeMore g n p s [] c = .exhausted

/-- Whether repeating runs out does not depend on what was matched before. -/
theorem outcomeMore_exhausted {done : List (ParseTree R)} (done' : List (ParseTree R))
    (h : outcomeMore g n p s done c = .exhausted) : outcomeMore g n p s done' c = .exhausted := by
  induction n generalizing done done' c with
  | zero => rfl
  | succ n ih =>
      rw [outcomeMore] at h ⊢
      cases hb : outcome g n .blank s c with
      | exhausted => rfl
      | failed => simp [hb] at h
      | matched blanks next =>
          simp only [hb] at h ⊢
          cases hp : outcome g n p s next with
          | exhausted => rfl
          | failed => simp [hp] at h
          | matched trees after =>
              simp only [hp] at h ⊢
              exact ih _ h

theorem Matches.cases (h : Matches g s p c after) (n : Nat) :
    outcome g n p s c = .exhausted ∨ ∃ trees, outcome g n p s c = .matched trees after := by
  obtain ⟨m, trees, hm⟩ := h
  by_cases hn : outcome g n p s c = .exhausted
  · exact .inl hn
  · exact .inr ⟨trees, (outcome_eq_outcome hn (by simp [hm])).trans hm⟩

theorem Misses.cases (h : Misses g s p c) (n : Nat) :
    outcome g n p s c = .exhausted ∨ outcome g n p s c = .failed := by
  obtain ⟨m, hm⟩ := h
  by_cases hn : outcome g n p s c = .exhausted
  · exact .inl hn
  · exact .inr ((outcome_eq_outcome hn (by simp [hm])).trans hm)

/-- A call runs out one deeper than any of the calls it makes. -/
theorem runsOut_of_calls {call next : Call R} (h : Calls g call next) (hn : next.RunsOut g n) :
    call.RunsOut g (n + 1) := by
  cases h with
  | rule | first | left | opt | star | notAhead | blank =>
      simp only [Call.RunsOut, outcome] at hn ⊢
      simp only [hn, if_true]
  | between hp =>
      simp only [Call.RunsOut, outcome] at hn ⊢
      obtain hp | ⟨trees, hp⟩ := hp.cases n
      · simp only [hp]
      · simp only [hp, hn]
  | second hp hb =>
      simp only [Call.RunsOut, outcome] at hn ⊢
      obtain hp | ⟨trees, hp⟩ := hp.cases n
      · simp only [hp]
      · obtain hb | ⟨blanks, hb⟩ := hb.cases n
        · simp only [hp, hb]
        · simp only [hp, hb, hn]
  | right hp =>
      simp only [Call.RunsOut, outcome] at hn ⊢
      obtain hp | hp := hp.cases n
      · simp only [hp]
      · simp only [hp, hn]
  | goOn hp =>
      simp only [Call.RunsOut, outcome] at hn ⊢
      obtain hp | ⟨trees, hp⟩ := hp.cases n
      · simp only [hp]
      · simp only [hp, outcomeMore_exhausted trees hn]
  | before =>
      simp only [Call.RunsOut, outcomeMore] at hn ⊢
      simp only [hn]
  | again hb =>
      simp only [Call.RunsOut, outcomeMore] at hn ⊢
      obtain hb | ⟨blanks, hb⟩ := hb.cases n
      · simp only [hb]
      · simp only [hb, hn]
  | onward hb hp =>
      simp only [Call.RunsOut, outcomeMore] at hn ⊢
      obtain hb | ⟨blanks, hb⟩ := hb.cases n
      · simp only [hb]
      · obtain hp | ⟨trees, hp⟩ := hp.cases n
        · simp only [hb, hp]
        · simp only [hb, hp, outcomeMore_exhausted _ hn]

/-- If a pattern cannot be matched within a bound, one of the calls for it cannot be made within a
bound that is one smaller. -/
theorem exists_calls_of_once (h : Call.RunsOut g (n + 1) ⟨.once p, s, c⟩) :
    ∃ next, Calls g ⟨.once p, s, c⟩ next ∧ next.RunsOut g n := by
  rw [Call.RunsOut] at h
  cases p with
  | text chars =>
      rw [outcome] at h
      cases hc : c.strip? chars <;> simp [hc, Outcome.ofCursor?] at h
  | one chars =>
      rw [outcome] at h
      cases hc : chars.after? c <;> simp [hc, Outcome.ofCursor?] at h
  | ending =>
      rw [outcome] at h
      cases hc : c.rest.isEmpty <;> simp [hc, Outcome.ofCursor?] at h
  | rule r =>
      rw [outcome] at h
      cases hr : outcome g n (g.body r) ((g.kind r).inside s) c with
      | exhausted => exact ⟨_, .rule, hr⟩
      | failed => simp [hr] at h
      | matched trees after => simp [hr] at h
  | seq p q =>
      rw [outcome] at h
      cases hp : outcome g n p s c with
      | exhausted => exact ⟨_, .first, hp⟩
      | failed => simp [hp] at h
      | matched trees after =>
          cases hb : outcome g n .blank s after with
          | exhausted => exact ⟨_, .between ⟨n, trees, hp⟩, hb⟩
          | failed => simp [hp, hb] at h
          | matched blanks next =>
              cases hq : outcome g n q s next with
              | exhausted => exact ⟨_, .second ⟨n, trees, hp⟩ ⟨n, blanks, hb⟩, hq⟩
              | failed => simp [hp, hb, hq] at h
              | matched more last => simp [hp, hb, hq] at h
  | alt p q =>
      rw [outcome] at h
      cases hp : outcome g n p s c with
      | exhausted => exact ⟨_, .left, hp⟩
      | failed =>
          simp only [hp] at h
          exact ⟨_, .right ⟨n, hp⟩, h⟩
      | matched trees after => simp [hp] at h
  | opt p =>
      rw [outcome] at h
      cases hp : outcome g n p s c with
      | exhausted => exact ⟨_, .opt, hp⟩
      | failed => simp [hp] at h
      | matched trees after => simp [hp] at h
  | star p =>
      rw [outcome] at h
      cases hp : outcome g n p s c with
      | exhausted => exact ⟨_, .star, hp⟩
      | failed => simp [hp] at h
      | matched trees after =>
          simp only [hp] at h
          exact ⟨_, .goOn ⟨n, trees, hp⟩, outcomeMore_exhausted [] h⟩
  | notAhead p =>
      rw [outcome] at h
      cases hp : outcome g n p s c with
      | exhausted => exact ⟨_, .notAhead, hp⟩
      | failed => simp [hp] at h
      | matched trees after => simp [hp] at h
  | blank =>
      rw [outcome] at h
      split at h
      · next hs =>
          subst hs
          exact ⟨_, .blank, h⟩
      · cases h

theorem exists_calls_of_more (h : Call.RunsOut g (n + 1) ⟨.more p, s, c⟩) :
    ∃ next, Calls g ⟨.more p, s, c⟩ next ∧ next.RunsOut g n := by
  rw [Call.RunsOut, outcomeMore] at h
  cases hb : outcome g n .blank s c with
  | exhausted => exact ⟨_, .before, hb⟩
  | failed => simp [hb] at h
  | matched blanks next =>
      cases hp : outcome g n p s next with
      | exhausted => exact ⟨_, .again ⟨n, blanks, hb⟩, hp⟩
      | failed => simp [hb, hp] at h
      | matched trees after =>
          simp only [hb, hp] at h
          exact ⟨_, .onward ⟨n, blanks, hb⟩ ⟨n, trees, hp⟩, outcomeMore_exhausted [] h⟩

theorem runsOut_succ_iff {call : Call R} :
    call.RunsOut g (n + 1) ↔ ∃ next, Calls g call next ∧ next.RunsOut g n := by
  constructor
  · intro h
    obtain ⟨task, s, c⟩ := call
    cases task with
    | once p => exact exists_calls_of_once h
    | more p => exact exists_calls_of_more h
  · rintro ⟨next, hcalls, hnext⟩
    exact runsOut_of_calls hcalls hnext

/-- A bound is too small exactly if as many calls nest as it allows. -/
theorem runsOut_iff_exists_chain (n : Nat) (call : Call R) :
    call.RunsOut g n ↔ ∃ calls, calls.length = n ∧ List.IsChain (Calls g) (call :: calls) := by
  induction n generalizing call with
  | zero =>
      constructor
      · intro _
        exact ⟨[], rfl, .singleton call⟩
      · intro _
        obtain ⟨task, s, c⟩ := call
        cases task <;> rfl
  | succ n ih =>
      constructor
      · intro h
        obtain ⟨next, hcalls, hnext⟩ := runsOut_succ_iff.1 h
        obtain ⟨calls, hlength, hchain⟩ := (ih next).1 hnext
        exact ⟨next :: calls, by simp [hlength], .cons_cons hcalls hchain⟩
      · rintro ⟨calls, hlength, hchain⟩
        cases hchain with
        | singleton => cases hlength
        | cons_cons hcalls hchain =>
            exact runsOut_of_calls hcalls ((ih _).2 ⟨_, Nat.succ.inj hlength, hchain⟩)

end Gsc.Peg
