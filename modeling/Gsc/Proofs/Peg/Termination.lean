import Gsc.Proofs.Peg.Derivations

/-! # Matching within a bound

A ranking tells of every rule whether it takes a character and how deep calls nest before one is
taken. If the patterns of the rules agree with it, every call costs more than the calls it makes. So
the nesting of calls grows with the length of the input and no faster, and a rule does not come back
to itself at the same place.
-/

namespace Gsc.Peg

variable {R : Type}

/-- What is said of the rules: whether a match takes a character, and how deep calls nest before
one is taken. -/
structure Ranks (R : Type) where
  eats : R → Bool
  height : R → Nat

namespace Pattern

def eats (ranks : Ranks R) : Pattern R → Bool
  | text chars => !chars.isEmpty
  | one _ => true
  | rule r => ranks.eats r
  | seq p q => p.eats ranks || q.eats ranks
  | alt p q => p.eats ranks && q.eats ranks
  | ending | opt _ | star _ | notAhead _ | blank => false

/-- How deep calls nest before a character is taken, where blanks take `blanks` calls. -/
def height (ranks : Ranks R) (blanks : Nat) : Pattern R → Nat
  | text _ | one _ | ending => 1
  | rule r => ranks.height r
  | seq p q =>
    if p.eats ranks then 1 + p.height ranks blanks
    else 1 + max (p.height ranks blanks) (max blanks (q.height ranks blanks))
  | alt p q => 1 + max (p.height ranks blanks) (q.height ranks blanks)
  | opt p | star p | notAhead p => 1 + p.height ranks blanks
  | blank => blanks

/-- Every repetition takes a character, and what follows a taken one nests no deeper than
`unit`. -/
def Fits (ranks : Ranks R) (blanks unit : Nat) : Pattern R → Prop
  | seq p q => p.Fits ranks blanks unit ∧ q.Fits ranks blanks unit ∧
      max blanks (q.height ranks blanks) ≤ unit
  | alt p q => p.Fits ranks blanks unit ∧ q.Fits ranks blanks unit
  | opt p | notAhead p => p.Fits ranks blanks unit
  | star p => p.Fits ranks blanks unit ∧ p.eats ranks = true ∧
      1 + max blanks (p.height ranks blanks) ≤ unit
  | text _ | one _ | ending | rule _ | blank => True

instance decidableFits (ranks : Ranks R) (blanks unit : Nat) :
    (p : Pattern R) → Decidable (p.Fits ranks blanks unit)
  | seq p q =>
    have := decidableFits ranks blanks unit p
    have := decidableFits ranks blanks unit q
    inferInstanceAs (Decidable (_ ∧ _ ∧ _))
  | alt p q =>
    have := decidableFits ranks blanks unit p
    have := decidableFits ranks blanks unit q
    inferInstanceAs (Decidable (_ ∧ _))
  | opt p | notAhead p => decidableFits ranks blanks unit p
  | star p =>
    have := decidableFits ranks blanks unit p
    inferInstanceAs (Decidable (_ ∧ _ ∧ _))
  | text _ | one _ | ending | rule _ | blank => isTrue trivial

end Pattern

/-- Ranks that the patterns of a grammar agree with. A rule ranks above its own pattern, so it
cannot come back to itself before a character is taken. -/
structure Ranking (g : Grammar R) extends Ranks R where
  blanks : Nat
  unit : Nat
  eats_body : ∀ r, eats r = true → (g.body r).eats toRanks = true
  height_body : ∀ r, (g.body r).height toRanks blanks < height r
  fits_body : ∀ r, (g.body r).Fits toRanks blanks unit
  height_blank : g.blank.height toRanks 1 < blanks
  fits_blank : g.blank.Fits toRanks 1 unit

/-! ## Characters are taken -/

theorem length_of_strip? {c after : Cursor} {chars : List Char} (h : c.strip? chars = some after) :
    after.rest.length + chars.length = c.rest.length := by
  fun_induction Cursor.strip? c chars with
  | case1 c =>
      cases h
      rfl
  | case2 => cases h
  | case3 pos rest t ts ih =>
      have := ih h
      simp only [List.length_cons] at *
      omega
  | case4 => cases h

theorem length_of_after? {chars : CharClass} {c after : Cursor} (h : chars.after? c = some after) :
    after.rest.length + 1 = c.rest.length := by
  obtain ⟨pos, rest⟩ := c
  cases rest with
  | nil => cases h
  | cons x rest =>
      simp only [CharClass.after?, Cursor.next?] at h
      split at h
      · cases h
        rfl
      · cases h

def Task.eats (ranks : Ranks R) : Task R → Bool
  | .once p => p.eats ranks
  | .more _ => false

/-- A match gives back no more than it was given, and less if its pattern takes a character. -/
theorem Derives.shrinks {g : Grammar R} (k : Ranking g) {task : Task R} {s : Spacing}
    {c after : Cursor} {trees : List (ParseTree R)} (h : Derives g task s c trees after) :
    after.rest.length ≤ c.rest.length ∧
      (task.eats k.toRanks = true → after.rest.length < c.rest.length) := by
  induction h with
  | @text chars _ _ _ h =>
      have hlen := length_of_strip? h
      refine ⟨by omega, ?_⟩
      intro heats
      have : chars.length ≠ 0 := by simpa [Task.eats, Pattern.eats] using heats
      omega
  | one h =>
      have hlen := length_of_after? h
      exact ⟨by omega, fun _ => by omega⟩
  | ending | without | never | notAhead | tight | enough => exact ⟨Nat.le_refl _, nofun⟩
  | @rule r _ _ _ _ _ ih => exact ⟨ih.1, fun heats => ih.2 (k.eats_body r heats)⟩
  | seq _ _ _ ihp ihb ihq =>
      refine ⟨by omega, ?_⟩
      intro heats
      rcases Bool.or_eq_true_iff.1 heats with heats | heats
      · have := ihp.2 heats
        omega
      · have := ihq.2 heats
        omega
  | left _ ih => exact ⟨ih.1, fun heats => ih.2 (Bool.and_eq_true_iff.1 heats).1⟩
  | right _ _ ih => exact ⟨ih.1, fun heats => ih.2 (Bool.and_eq_true_iff.1 heats).2⟩
  | opt _ ih | blank _ ih => exact ⟨ih.1, nofun⟩
  | star _ _ ihp ihmore => exact ⟨Nat.le_trans ihmore.1 ihp.1, nofun⟩
  | again _ _ _ ihb ihp ihmore => exact ⟨Nat.le_trans ihmore.1 (Nat.le_trans ihp.1 ihb.1), nofun⟩

/-! ## The bound is never reached -/

theorem mul_add_le_mul (unit : Nat) {short long : Nat} (h : short < long) :
    unit * short + unit ≤ unit * long := by
  rw [← Nat.mul_succ]
  exact Nat.mul_le_mul_left unit h

/-- Blanks in this spacing take at most `b` calls. -/
def Ranking.Spaced {g : Grammar R} (k : Ranking g) (s : Spacing) (b : Nat) : Prop :=
  1 ≤ b ∧ (s = .free → k.blanks ≤ b)

theorem Ranking.spaced_blanks {g : Grammar R} (k : Ranking g) (s : Spacing) :
    k.Spaced s k.blanks := by
  have hblank := k.height_blank
  exact ⟨by omega, fun _ => Nat.le_refl _⟩

theorem Ranking.one_le_height {g : Grammar R} (k : Ranking g) {b : Nat} (hb : 1 ≤ b)
    (p : Pattern R) : 1 ≤ p.height k.toRanks b := by
  cases p with
  | text | one | ending => exact Nat.le_refl 1
  | rule r => exact Nat.lt_of_le_of_lt (Nat.zero_le _) (k.height_body r)
  | seq p q =>
      rw [Pattern.height]
      split <;> exact Nat.le_add_right ..
  | alt | opt | star | notAhead => exact Nat.le_add_right ..
  | blank => exact hb

/-- What a call may cost: `unit` for every character left, and the height of its pattern. -/
def Ranking.Costs {g : Grammar R} (k : Ranking g) : Call R → Nat → Prop
  | ⟨.once p, s, c⟩, cost => ∃ b, k.Spaced s b ∧ p.Fits k.toRanks b k.unit ∧
      cost = k.unit * c.rest.length + p.height k.toRanks b
  | ⟨.more p, s, c⟩, cost => ∃ b, k.Spaced s b ∧ (Pattern.star p).Fits k.toRanks b k.unit ∧
      cost = k.unit * c.rest.length + (1 + max b (p.height k.toRanks b))

namespace Ranking

variable {g : Grammar R} {k : Ranking g} {p q : Pattern R} {s : Spacing} {c after : Cursor}
  {b cost : Nat} {call next : Call R}

theorem length_le (k : Ranking g) (h : Matches g s p c after) :
    k.unit * after.rest.length ≤ k.unit * c.rest.length := by
  obtain ⟨n, trees, h⟩ := h
  exact Nat.mul_le_mul_left k.unit (((derivable g n).once h).shrinks k).1

theorem length_lt (h : Matches g s p c after) (heats : p.eats k.toRanks = true) :
    after.rest.length < c.rest.length := by
  obtain ⟨n, trees, h⟩ := h
  exact (((derivable g n).once h).shrinks k).2 heats

/-- Behind the first part of a sequence, either a character was taken or the height of the whole
counts what follows as well. -/
theorem cost_behind (hf : (p.seq q).Fits k.toRanks b k.unit) (h : Matches g s p c after) :
    k.unit * after.rest.length + max b (q.height k.toRanks b)
      < k.unit * c.rest.length + (p.seq q).height k.toRanks b := by
  rw [Pattern.height]
  split
  · next heats =>
      have := mul_add_le_mul k.unit (length_lt h heats)
      have := hf.2.2
      omega
  · have := k.length_le h
    omega

namespace Costs

theorem pos (h : k.Costs call cost) : 0 < cost := by
  obtain ⟨task, s, c⟩ := call
  cases task with
  | once p =>
      obtain ⟨b, hs, -, rfl⟩ := h
      have := k.one_le_height hs.1 p
      omega
  | more p =>
      obtain ⟨b, -, -, rfl⟩ := h
      omega

theorem rule (k : Ranking g) (r : R) (s : Spacing) (c : Cursor) :
    k.Costs ⟨.once (.rule r), s, c⟩ (k.unit * c.rest.length + k.height r) :=
  ⟨k.blanks, k.spaced_blanks s, trivial, rfl⟩

theorem eq_of_rule {r : R} (h : k.Costs ⟨.once (.rule r), s, c⟩ cost) :
    cost = k.unit * c.rest.length + k.height r := by
  obtain ⟨b, -, -, h⟩ := h
  exact h

theorem once (hs : k.Spaced s b) (hf : p.Fits k.toRanks b k.unit)
    (h : k.unit * c.rest.length + p.height k.toRanks b < cost) :
    ∃ less < cost, k.Costs ⟨.once p, s, c⟩ less :=
  ⟨_, h, b, hs, hf, rfl⟩

theorem more (hs : k.Spaced s b) (hf : (Pattern.star p).Fits k.toRanks b k.unit)
    (h : k.unit * c.rest.length + (1 + max b (p.height k.toRanks b)) < cost) :
    ∃ less < cost, k.Costs ⟨.more p, s, c⟩ less :=
  ⟨_, h, b, hs, hf, rfl⟩

/-- Every call costs more than the calls it makes. -/
theorem of_calls (h : k.Costs call cost) (hc : Calls g call next) :
    ∃ less < cost, k.Costs next less := by
  cases hc with
  | @rule r s c =>
      obtain ⟨b, -, -, rfl⟩ := h
      have hheight := k.height_body r
      refine once (k.spaced_blanks _) (k.fits_body r) ?_
      simp only [Pattern.height]
      omega
  | first =>
      obtain ⟨b, hs, hf, rfl⟩ := h
      refine once hs hf.1 ?_
      simp only [Pattern.height]
      split <;> omega
  | between hp =>
      obtain ⟨b, hs, hf, rfl⟩ := h
      have := cost_behind hf hp
      refine once hs trivial (show _ + b < _ from ?_)
      omega
  | second hp hb =>
      obtain ⟨b, hs, hf, rfl⟩ := h
      have := cost_behind hf hp
      have := k.length_le hb
      exact once hs hf.2.1 (by omega)
  | left =>
      obtain ⟨b, hs, hf, rfl⟩ := h
      refine once hs hf.1 ?_
      simp only [Pattern.height]
      omega
  | right =>
      obtain ⟨b, hs, hf, rfl⟩ := h
      refine once hs hf.2 ?_
      simp only [Pattern.height]
      omega
  | opt | notAhead =>
      obtain ⟨b, hs, hf, rfl⟩ := h
      refine once hs hf ?_
      simp only [Pattern.height]
      omega
  | star =>
      obtain ⟨b, hs, hf, rfl⟩ := h
      refine once hs hf.1 ?_
      simp only [Pattern.height]
      omega
  | goOn hp =>
      obtain ⟨b, hs, hf, rfl⟩ := h
      have := mul_add_le_mul k.unit (length_lt hp hf.2.1)
      have := hf.2.2
      exact more hs hf (by simp only [Pattern.height]; omega)
  | blank =>
      obtain ⟨b, hs, -, rfl⟩ := h
      have := hs.2 rfl
      have := k.height_blank
      refine once (b := 1) ⟨Nat.le_refl 1, by simp⟩ k.fits_blank ?_
      simp only [Pattern.height]
      omega
  | before =>
      obtain ⟨b, hs, hf, rfl⟩ := h
      refine once hs trivial (show _ + b < _ from ?_)
      omega
  | again hb =>
      obtain ⟨b, hs, hf, rfl⟩ := h
      have := k.length_le hb
      exact once hs hf.1 (by omega)
  | onward hb hp =>
      obtain ⟨b, hs, hf, rfl⟩ := h
      have := k.length_le hb
      have := mul_add_le_mul k.unit (length_lt hp hf.2.1)
      have := hf.2.2
      exact more hs hf (by omega)

variable {calls : List (Call R)}

/-- So does it of the calls that those make. -/
theorem of_mem_chain (h : k.Costs call cost) (hc : List.IsChain (Calls g) (call :: calls)) :
    ∀ inner ∈ calls, ∃ less < cost, k.Costs inner less := by
  induction calls generalizing call cost with
  | nil => simp
  | cons next calls ih =>
      rw [List.isChain_cons_cons] at hc
      obtain ⟨less, hless, hnext⟩ := h.of_calls hc.1
      intro inner hinner
      rcases List.mem_cons.1 hinner with rfl | hinner
      · exact ⟨less, hless, hnext⟩
      · obtain ⟨least, hleast, hcosts⟩ := ih hnext hc.2 inner hinner
        exact ⟨least, Nat.lt_trans hleast hless, hcosts⟩

/-- Calls nest no deeper than the outermost one costs. -/
theorem length_lt_of_chain (h : k.Costs call cost)
    (hc : List.IsChain (Calls g) (call :: calls)) : calls.length < cost := by
  induction calls generalizing call cost with
  | nil => exact h.pos
  | cons next calls ih =>
      rw [List.isChain_cons_cons] at hc
      obtain ⟨less, hless, hnext⟩ := h.of_calls hc.1
      have := ih hnext hc.2
      rw [List.length_cons]
      omega

/-- A rule that is entered again inside itself is entered further on. -/
theorem pairwise_of_chain (h : k.Costs call cost)
    (hc : List.IsChain (Calls g) (call :: calls)) :
    (call :: calls).Pairwise fun outer inner => ∀ r, outer.task = .once (.rule r) →
      inner.task = .once (.rule r) → inner.place.rest.length < outer.place.rest.length := by
  induction calls generalizing call cost with
  | nil => exact List.pairwise_singleton _ _
  | cons next calls ih =>
      have hinner := h.of_mem_chain hc
      rw [List.isChain_cons_cons] at hc
      obtain ⟨less, hless, hnext⟩ := h.of_calls hc.1
      refine List.pairwise_cons.2 ⟨fun inner hmem r houter hrule => ?_, ih hnext hc.2⟩
      obtain ⟨less, hless, hcosts⟩ := hinner inner hmem
      obtain ⟨task, s, c⟩ := call
      obtain ⟨task', s', c'⟩ := inner
      subst houter
      subst hrule
      rw [h.eq_of_rule, hcosts.eq_of_rule] at hless
      exact Nat.lt_of_mul_lt_mul_left (Nat.lt_of_add_lt_add_right hless)

/-- Each turn of a repetition takes a character. -/
theorem length_lt_of_turns {first last : Cursor} (h : k.Costs call cost)
    (ht : Turns g call first last) : last.rest.length < first.rest.length := by
  cases ht with
  | first hp =>
      obtain ⟨b, -, hf, -⟩ := h
      exact length_lt hp hf.2.1
  | again hb hp =>
      obtain ⟨b, -, hf, -⟩ := h
      exact length_lt hp hf.2.1

/-- A call does not run out of a bound that it cannot exceed. -/
theorem not_runsOut {n : Nat} (h : k.Costs call cost) (hn : cost ≤ n) : ¬ call.RunsOut g n := by
  intro hout
  obtain ⟨calls, hlength, hchain⟩ := (runsOut_iff_exists_chain n call).1 hout
  have := h.length_lt_of_chain hchain
  omega

end Costs

end Ranking

/-- Calls that may nest `unit` deep for every character left, and the pattern's height deeper, do
not run out. -/
structure Ends {g : Grammar R} (k : Ranking g) (n : Nat) : Prop where
  once : ∀ {p s c b}, k.Spaced s b → p.Fits k.toRanks b k.unit →
    k.unit * c.rest.length + p.height k.toRanks b ≤ n → outcome g n p s c ≠ .exhausted
  more : ∀ {p s done c b}, k.Spaced s b → (Pattern.star p).Fits k.toRanks b k.unit →
    k.unit * c.rest.length + (1 + max b (p.height k.toRanks b)) ≤ n →
      outcomeMore g n p s done c ≠ .exhausted

theorem ends {g : Grammar R} (k : Ranking g) (n : Nat) : Ends k n := by
  constructor
  · intro p s c b hs hf hn hout
    have hcosts : k.Costs ⟨.once p, s, c⟩ _ := ⟨b, hs, hf, rfl⟩
    exact hcosts.not_runsOut hn hout
  · intro p s done c b hs hf hn hout
    have hcosts : k.Costs ⟨.more p, s, c⟩ _ := ⟨b, hs, hf, rfl⟩
    exact hcosts.not_runsOut hn (outcomeMore_exhausted [] hout)

/-- A rule of a ranked grammar is matched within the bound for the characters that are left. -/
theorem Ranking.eval_ne_exhausted {g : Grammar R} (k : Ranking g) {r : R}
    (hr : k.height r ≤ 4096) (hunit : k.unit ≤ 4096) {c : Cursor} {n : Nat}
    (hn : depthFor c.rest.length ≤ n) (mode : Mode) (log : Attempts R) :
    (eval g n (.rule r) mode c log).1 ≠ .exhausted := by
  rw [(forgets g n).once]
  have hlength := Nat.mul_le_mul_right c.rest.length hunit
  apply (ends k n).once (p := .rule r) (k.spaced_blanks _)
  · trivial
  · simp only [Pattern.height, depthFor] at hn ⊢
    omega

/-- A ranked grammar is matched within the bound that `Grammar.run` supplies. -/
theorem Ranking.run_ne_exhausted {g : Grammar R} (k : Ranking g) {root : R}
    (hroot : k.height root ≤ 4096) (hunit : k.unit ≤ 4096) (input : List Char) :
    (g.run root input).1 ≠ .exhausted :=
  k.eval_ne_exhausted (c := .atStart input) hroot hunit (Nat.le_refl _) .initial .empty

end Gsc.Peg
