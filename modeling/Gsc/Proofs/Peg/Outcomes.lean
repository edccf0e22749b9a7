import Gsc.Peg.Match

/-! # What a match comes to

The outcome of matching a pattern depends neither on the attempts that are recorded on the way nor
on the negations around the pattern, and a deeper bound on the nesting of calls does not change it.
`outcome` leaves the first two out.
-/

namespace Gsc.Peg

variable {R : Type}

namespace Kind

def around : Kind → Spacing → Spacing
  | compound, _ => .compound
  | _, s => s

def inside : Kind → Spacing → Spacing
  | normal, s => s
  | atomic, _ => .atomic
  | compound, _ => .compound

@[simp] theorem spacing_ruleMode (k : Kind) (mode : Mode) :
    (k.ruleMode mode).spacing = k.around mode.spacing := by
  cases k <;> rfl

@[simp] theorem spacing_bodyMode (k : Kind) (mode : Mode) :
    (k.bodyMode mode).spacing = k.inside mode.spacing := by
  cases k <;> rfl

end Kind

def CharClass.after? (chars : CharClass) (cursor : Cursor) : Option Cursor :=
  match cursor.next? with
  | some (c, after) => if chars.holds c then some after else none
  | none => none

def treesOf (r : R) (start : Cursor) (s : Spacing) (trees : List (ParseTree R)) (after : Cursor) :
    List (ParseTree R) :=
  if s = .atomic then trees else [.node r start after.pos trees]

/-! ## Matching without a record -/

mutual

def outcome (g : Grammar R) : Nat → Pattern R → Spacing → Cursor → Outcome R
  | 0, _, _, _ => .exhausted
  | _ + 1, .text chars, _, c => .ofCursor? (c.strip? chars)
  | _ + 1, .one chars, _, c => .ofCursor? (chars.after? c)
  | _ + 1, .ending, _, c => .ofCursor? (if c.rest.isEmpty then some c else none)
  | n + 1, .rule r, s, c =>
    match outcome g n (g.body r) ((g.kind r).inside s) c with
    | .matched trees after => .matched (treesOf r c ((g.kind r).around s) trees after) after
    | o => o
  | n + 1, .seq p q, s, c =>
    match outcome g n p s c with
    | .matched trees after =>
      match outcome g n .blank s after with
      | .matched _ next =>
        match outcome g n q s next with
        | .matched more last => .matched (trees ++ more) last
        | o => o
      | o => o
    | o => o
  | n + 1, .alt p q, s, c =>
    match outcome g n p s c with
    | .failed => outcome g n q s c
    | o => o
  | n + 1, .opt p, s, c =>
    match outcome g n p s c with
    | .failed => .matched [] c
    | o => o
  | n + 1, .star p, s, c =>
    match outcome g n p s c with
    | .matched trees after => outcomeMore g n p s trees after
    | .failed => .matched [] c
    | .exhausted => .exhausted
  | n + 1, .notAhead p, s, c =>
    match outcome g n p s c with
    | .matched _ _ => .failed
    | .failed => .matched [] c
    | .exhausted => .exhausted
  | n + 1, .blank, s, c => if s = .free then outcome g n g.blank .atomic c else .matched [] c

def outcomeMore (g : Grammar R) :
    Nat → Pattern R → Spacing → List (ParseTree R) → Cursor → Outcome R
  | 0, _, _, _, _ => .exhausted
  | n + 1, p, s, done, c =>
    match outcome g n .blank s c with
    | .matched _ next =>
      match outcome g n p s next with
      | .matched trees after => outcomeMore g n p s (done ++ trees) after
      | .failed => .matched done c
      | .exhausted => .exhausted
    | o => o

end

theorem recorded_eq (r : R) (start : Cursor) (mode : Mode) (trees : List (ParseTree R))
    (after : Cursor) :
    recorded r start mode trees after = treesOf r start mode.spacing trees after := rfl

/-- Recording attempts does not change what a match comes to. -/
structure Forgets (g : Grammar R) (n : Nat) : Prop where
  once : ∀ p mode c log, (eval g n p mode c log).1 = outcome g n p mode.spacing c
  more : ∀ p mode done c log,
    (evalMore g n p mode done c log).1 = outcomeMore g n p mode.spacing done c

theorem fst_eval_succ {g : Grammar R} {n : Nat} (ih : Forgets g n) (p : Pattern R) (mode : Mode)
    (c : Cursor) (log : Attempts R) :
    (eval g (n + 1) p mode c log).1 = outcome g (n + 1) p mode.spacing c := by
  cases p with
  | text chars => rfl
  | one chars =>
      rw [eval, outcome, CharClass.after?]
      cases c.next? with
      | none => rfl
      | some found =>
          obtain ⟨x, after⟩ := found
          cases h : chars.holds x <;> simp [h, Outcome.ofCursor?]
  | ending =>
      rw [eval, outcome]
      cases c.rest.isEmpty <;> rfl
  | rule r =>
      rw [eval, outcome, ← Kind.spacing_bodyMode, ← ih.once _ _ _ log]
      rcases eval g n (g.body r) ((g.kind r).bodyMode mode) c log with ⟨o, log'⟩
      cases o with
      | matched trees after => simp [recorded_eq]
      | failed => rfl
      | exhausted => rfl
  | seq p q =>
      rw [eval, outcome, ← ih.once _ _ _ log]
      rcases eval g n p mode c log with ⟨o, log₁⟩
      cases o with
      | matched trees after =>
          simp only
          rw [← ih.once _ _ _ log₁]
          rcases eval g n .blank mode after log₁ with ⟨o, log₂⟩
          cases o with
          | matched blanks next =>
              simp only
              rw [← ih.once _ _ _ log₂]
              rcases eval g n q mode next log₂ with ⟨o, log₃⟩
              cases o <;> rfl
          | failed => rfl
          | exhausted => rfl
      | failed => rfl
      | exhausted => rfl
  | alt p q =>
      rw [eval, outcome, ← ih.once _ _ _ log]
      rcases eval g n p mode c log with ⟨o, log'⟩
      cases o with
      | failed => exact ih.once q mode c log'
      | matched trees after => rfl
      | exhausted => rfl
  | opt p =>
      rw [eval, outcome, ← ih.once _ _ _ log]
      rcases eval g n p mode c log with ⟨o, log'⟩
      cases o <;> rfl
  | star p =>
      rw [eval, outcome, ← ih.once _ _ _ log]
      rcases eval g n p mode c log with ⟨o, log'⟩
      cases o with
      | matched trees after => exact ih.more p mode trees after log'
      | failed => rfl
      | exhausted => rfl
  | notAhead p =>
      have h := ih.once p { mode with sense := mode.sense.negate } c log
      rw [eval, outcome, ← h]
      rcases eval g n p { mode with sense := mode.sense.negate } c log with ⟨o, log'⟩
      cases o <;> rfl
  | blank =>
      rw [eval, outcome]
      by_cases h : mode.spacing = .free
      · rw [if_pos h, if_pos h]
        exact ih.once g.blank { mode with spacing := .atomic } c log
      · rw [if_neg h, if_neg h]

theorem fst_evalMore_succ {g : Grammar R} {n : Nat} (ih : Forgets g n) (p : Pattern R)
    (mode : Mode) (done : List (ParseTree R)) (c : Cursor) (log : Attempts R) :
    (evalMore g (n + 1) p mode done c log).1 = outcomeMore g (n + 1) p mode.spacing done c := by
  rw [evalMore, outcomeMore, ← ih.once _ _ _ log]
  rcases eval g n .blank mode c log with ⟨o, log₁⟩
  cases o with
  | matched blanks next =>
      simp only
      rw [← ih.once _ _ _ log₁]
      rcases eval g n p mode next log₁ with ⟨o, log₂⟩
      cases o with
      | matched trees after => exact ih.more p mode (done ++ trees) after log₂
      | failed => rfl
      | exhausted => rfl
  | failed => rfl
  | exhausted => rfl

theorem forgets (g : Grammar R) (n : Nat) : Forgets g n := by
  induction n with
  | zero => exact ⟨fun _ _ _ _ => rfl, fun _ _ _ _ _ => rfl⟩
  | succ n ih => exact ⟨fst_eval_succ ih, fst_evalMore_succ ih⟩

theorem outcome_of_eval {g : Grammar R} {n : Nat} {p : Pattern R} {mode : Mode} {c : Cursor}
    {log log' : Attempts R} {o : Outcome R} (h : eval g n p mode c log = (o, log')) :
    outcome g n p mode.spacing c = o := by
  rw [← (forgets g n).once p mode c log, h]

/-! ## Deeper bounds -/

/-- An outcome other than running out stays the same with one more call. -/
structure Persists (g : Grammar R) (n : Nat) : Prop where
  once : ∀ {p s c}, outcome g n p s c ≠ .exhausted → outcome g (n + 1) p s c = outcome g n p s c
  more : ∀ {p s done c}, outcomeMore g n p s done c ≠ .exhausted →
    outcomeMore g (n + 1) p s done c = outcomeMore g n p s done c

theorem persists_once {g : Grammar R} {n : Nat} (ih : Persists g n) {p : Pattern R} {s : Spacing}
    {c : Cursor} (h : outcome g (n + 1) p s c ≠ .exhausted) :
    outcome g (n + 2) p s c = outcome g (n + 1) p s c := by
  cases p with
  | text | one | ending => rfl
  | rule r =>
      rw [outcome] at h ⊢
      rw [outcome, ih.once]
      intro hb
      exact h (by rw [hb])
  | seq p q =>
      rw [outcome] at h ⊢
      rw [outcome]
      cases hp : outcome g n p s c with
      | exhausted => simp [hp] at h
      | failed => rw [ih.once (by simp [hp]), hp]
      | matched trees after =>
          rw [ih.once (by simp [hp]), hp]
          simp only [hp] at h ⊢
          cases hb : outcome g n .blank s after with
          | exhausted => simp [hb] at h
          | failed => rw [ih.once (by simp [hb]), hb]
          | matched blanks next =>
              rw [ih.once (by simp [hb]), hb]
              simp only [hb] at h ⊢
              rw [ih.once]
              intro hq
              exact h (by rw [hq])
  | alt p q =>
      rw [outcome] at h ⊢
      rw [outcome]
      cases hp : outcome g n p s c with
      | exhausted => simp [hp] at h
      | failed =>
          rw [ih.once (by simp [hp]), hp]
          simp only [hp] at h ⊢
          exact ih.once h
      | matched trees after => rw [ih.once (by simp [hp]), hp]
  | opt p =>
      rw [outcome] at h ⊢
      rw [outcome, ih.once]
      intro hp
      exact h (by rw [hp])
  | star p =>
      rw [outcome] at h ⊢
      rw [outcome]
      cases hp : outcome g n p s c with
      | exhausted => simp [hp] at h
      | failed => rw [ih.once (by simp [hp]), hp]
      | matched trees after =>
          rw [ih.once (by simp [hp]), hp]
          simp only [hp] at h ⊢
          exact ih.more h
  | notAhead p =>
      rw [outcome] at h ⊢
      rw [outcome, ih.once]
      intro hp
      exact h (by rw [hp])
  | blank =>
      rw [outcome] at h ⊢
      rw [outcome]
      by_cases hs : s = .free
      · simp only [if_pos hs] at h ⊢
        exact ih.once h
      · simp only [if_neg hs]

theorem persists_more {g : Grammar R} {n : Nat} (ih : Persists g n) {p : Pattern R} {s : Spacing}
    {done : List (ParseTree R)} {c : Cursor}
    (h : outcomeMore g (n + 1) p s done c ≠ .exhausted) :
    outcomeMore g (n + 2) p s done c = outcomeMore g (n + 1) p s done c := by
  rw [outcomeMore] at h ⊢
  rw [outcomeMore]
  cases hb : outcome g n .blank s c with
  | exhausted => simp [hb] at h
  | failed => rw [ih.once (by simp [hb]), hb]
  | matched blanks next =>
      rw [ih.once (by simp [hb]), hb]
      simp only [hb] at h ⊢
      cases hp : outcome g n p s next with
      | exhausted => simp [hp] at h
      | failed => rw [ih.once (by simp [hp]), hp]
      | matched trees after =>
          rw [ih.once (by simp [hp]), hp]
          simp only [hp] at h ⊢
          exact ih.more h

theorem persists (g : Grammar R) (n : Nat) : Persists g n := by
  induction n with
  | zero =>
      constructor
      · intro p s c h
        exact (h rfl).elim
      · intro p s done c h
        exact (h rfl).elim
  | succ n ih => exact ⟨persists_once ih, persists_more ih⟩

theorem outcome_of_le {g : Grammar R} {n m : Nat} {p : Pattern R} {s : Spacing} {c : Cursor}
    {o : Outcome R} (h : outcome g n p s c = o) (ho : o ≠ .exhausted) (hle : n ≤ m) :
    outcome g m p s c = o := by
  induction hle with
  | refl => exact h
  | step _ ih =>
      rw [(persists g _).once, ih]
      rw [ih]
      exact ho

/-- Bounds of which none runs out give the same outcome. -/
theorem outcome_eq_outcome {g : Grammar R} {n m : Nat} {p : Pattern R} {s : Spacing} {c : Cursor}
    (hn : outcome g n p s c ≠ .exhausted) (hm : outcome g m p s c ≠ .exhausted) :
    outcome g n p s c = outcome g m p s c := by
  rcases Nat.le_total n m with hle | hle
  · exact (outcome_of_le rfl hn hle).symm
  · exact outcome_of_le rfl hm hle

end Gsc.Peg
