import Gsc.Proofs.Peg.Layout
import Gsc.Proofs.Peg.Yields

/-! # What a pattern takes

Most failures show at the first characters: `refuses` finds them. Where a pattern records nothing,
what it takes is put together from what its parts take.
-/

namespace Gsc.Peg

variable {R : Type} {g : Grammar R} {s : Spacing} {p q : Pattern R}

/-! ## Failures of a whole text -/

/-- The pattern fails on a text, wherever the text stands. -/
def Fails (g : Grammar R) (s : Spacing) (p : Pattern R) (chars : List Char) : Prop :=
  ∀ pos, Yields g s p ⟨pos, chars⟩ .failed

/-- No blanks stand in front of a text. -/
def Solid (g : Grammar R) (chars : List Char) : Prop :=
  ∀ pos, ∃ blanks, Yields g .free .blank ⟨pos, chars⟩ (.matched blanks ⟨pos, chars⟩)

theorem Solid.blank {chars : List Char} (h : s = .free → Solid g chars) (pos : Nat) :
    ∃ blanks, Yields g s .blank ⟨pos, chars⟩ (.matched blanks ⟨pos, chars⟩) := by
  by_cases hs : s = .free
  · subst hs
    exact h rfl pos
  · exact ⟨[], .blank_tight hs⟩

/-! ## Failures at the first characters -/

def differ : List Char → List Char → Bool
  | t :: ts, c :: cs => c ≠ t || differ ts cs
  | _, _ => false

theorem strip?_of_differ {chars front : List Char} (h : differ chars front = true) (pos : Nat)
    (rest : List Char) : Cursor.strip? ⟨pos, front ++ rest⟩ chars = none := by
  fun_induction differ chars front generalizing pos with
  | case1 t ts c cs ih =>
      rw [List.cons_append, Cursor.strip?]
      by_cases hc : c = t
      · simp only [hc, ne_eq, not_true_eq_false, decide_false, Bool.false_or] at h
        rw [if_pos hc, ih h]
      · rw [if_neg hc]
  | case2 => cases h

mutual

/-- Whether a pattern fails at every text that begins with `front` and not with blanks, as far as
this shows within a number of calls. -/
def refuses (g : Grammar R) : Nat → Pattern R → List Char → Bool
  | _ + 1, .text chars, front => differ chars front
  | _ + 1, .one chars, c :: _ => !chars.holds c
  | _ + 1, .ending, _ :: _ => true
  | n + 1, .rule r, front => refuses g n (g.body r) front
  | n + 1, .seq p q, front => refuses g n p front || skips g n p front && refuses g n q front
  | n + 1, .alt p q, front => refuses g n p front && refuses g n q front
  | _, _, _ => false

/-- Whether a pattern matches nothing at every such text. -/
def skips (g : Grammar R) : Nat → Pattern R → List Char → Bool
  | _ + 1, .text [], _ => true
  | n + 1, .opt p, front => refuses g n p front
  | n + 1, .star p, front => refuses g n p front
  | n + 1, .notAhead p, front => refuses g n p front
  | n + 1, .seq p q, front => skips g n p front && skips g n q front
  | _, _, _ => false

end

/-- What `refuses` and `skips` find is so. -/
structure Refusal (g : Grammar R) (front rest : List Char) (n : Nat) : Prop where
  fails : ∀ {p s}, (s = .free → Solid g (front ++ rest)) → refuses g n p front = true →
    Fails g s p (front ++ rest)
  skips : ∀ {p s}, (s = .free → Solid g (front ++ rest)) → skips g n p front = true →
    ∀ pos, Yields g s p ⟨pos, front ++ rest⟩ (.matched [] ⟨pos, front ++ rest⟩)

variable {front rest : List Char}

theorem Kind.free_of_inside {k : Kind} (h : k.inside s = .free) : s = .free := by
  cases k with
  | normal => exact h
  | atomic => cases h
  | compound => cases h

theorem fails_of_refuses_succ {n : Nat} (ih : Refusal g front rest n)
    (hs : s = .free → Solid g (front ++ rest)) (h : refuses g (n + 1) p front = true) :
    Fails g s p (front ++ rest) := by
  intro pos
  cases p with
  | text chars =>
      rw [refuses] at h
      have hyields : Yields g s (.text chars) ⟨pos, front ++ rest⟩ _ := .text
      rwa [strip?_of_differ h] at hyields
  | one chars =>
      cases front with
      | nil => cases h
      | cons c front =>
          have hc : chars.holds c = false := by simpa [refuses] using h
          have hafter : chars.after? ⟨pos, c :: front ++ rest⟩ = none := by
            simp [CharClass.after?, Cursor.next?, hc]
          have hyields : Yields g s (.one chars) ⟨pos, c :: front ++ rest⟩ _ := .one
          rwa [hafter] at hyields
  | ending =>
      cases front with
      | nil => cases h
      | cons c front => exact yields_of_succ (n := 0) fun _ _ => rfl
  | rule r =>
      rw [refuses] at h
      exact .rule_failed (ih.fails (fun h => hs (Kind.free_of_inside h)) h pos)
  | seq p q =>
      rw [refuses, Bool.or_eq_true_iff, Bool.and_eq_true_iff] at h
      rcases h with h | ⟨hp, hq⟩
      · exact .seq_failed_left (ih.fails hs h pos)
      · obtain ⟨blanks, hb⟩ := Solid.blank hs pos
        exact .seq_failed (ih.skips hs hp pos) hb (ih.fails hs hq pos)
  | alt p q =>
      rw [refuses, Bool.and_eq_true_iff] at h
      exact .alt_right (ih.fails hs h.1 pos) (ih.fails hs h.2 pos)
  | opt | star | notAhead | blank => simp [refuses] at h

theorem skips_of_skips_succ {n : Nat} (ih : Refusal g front rest n)
    (hs : s = .free → Solid g (front ++ rest)) (h : skips g (n + 1) p front = true) (pos : Nat) :
    Yields g s p ⟨pos, front ++ rest⟩ (.matched [] ⟨pos, front ++ rest⟩) := by
  cases p with
  | text chars =>
      cases chars with
      | nil => exact yields_of_succ (n := 0) fun _ _ => rfl
      | cons => simp [skips] at h
  | seq p q =>
      rw [skips, Bool.and_eq_true_iff] at h
      obtain ⟨blanks, hb⟩ := Solid.blank hs pos
      exact .seq (ih.skips hs h.1 pos) hb (ih.skips hs h.2 pos)
  | opt p =>
      rw [skips] at h
      exact .opt_none (ih.fails hs h pos)
  | star p =>
      rw [skips] at h
      exact .star_none (ih.fails hs h pos)
  | notAhead p =>
      rw [skips] at h
      exact .notAhead (ih.fails hs h pos)
  | one | ending | rule | alt | blank => simp [skips] at h

theorem refusal (g : Grammar R) (front rest : List Char) (n : Nat) : Refusal g front rest n := by
  induction n with
  | zero =>
      constructor
      · intro p s _ h
        simp [refuses] at h
      · intro p s _ h
        simp [skips] at h
  | succ n ih => exact ⟨fails_of_refuses_succ ih, skips_of_skips_succ ih⟩

/-! ## Runs of characters -/

/-- In tight spacing the pattern takes a word in front of `rest` and records nothing. -/
def Takes (g : Grammar R) (p : Pattern R) (word rest : List Char) : Prop :=
  ∀ pos, Yields g .atomic p ⟨pos, word ++ rest⟩ (.matched [] ⟨pos + utf8Length word, rest⟩)

/-- Going on to repeat the pattern takes a word in front of `rest` and records nothing. -/
def TakesMore (g : Grammar R) (p : Pattern R) (word rest : List Char) : Prop :=
  ∀ pos, YieldsMore g .atomic p [] ⟨pos, word ++ rest⟩
    (.matched [] ⟨pos + utf8Length word, rest⟩)

theorem strip?_append (pos : Nat) (word rest : List Char) :
    Cursor.strip? ⟨pos, word ++ rest⟩ word = some ⟨pos + utf8Length word, rest⟩ := by
  induction word generalizing pos with
  | nil => rfl
  | cons c word ih => simp [Cursor.strip?, ih, Nat.add_assoc]

variable {word word' : List Char}

namespace Takes

theorem text : Takes g (.text word) word rest := by
  intro pos
  have hyields : Yields g .atomic (.text word) ⟨pos, word ++ rest⟩ _ := .text
  rwa [strip?_append] at hyields

theorem one {chars : CharClass} {c : Char} (h : chars.holds c = true) :
    Takes g (.one chars) [c] rest := by
  intro pos
  have hafter : chars.after? ⟨pos, c :: rest⟩ = some ⟨pos + c.utf8Size, rest⟩ := by
    simp [CharClass.after?, Cursor.next?, h]
  have hyields : Yields g .atomic (.one chars) ⟨pos, c :: rest⟩ _ := .one
  rw [hafter] at hyields
  simpa [Outcome.ofCursor?] using hyields

theorem seq (hp : Takes g p word (word' ++ rest)) (hq : Takes g q word' rest) :
    Takes g (.seq p q) (word ++ word') rest := by
  intro pos
  have hboth := (hp pos).seq (.blank_tight nofun) (hq _)
  simpa [Nat.add_assoc] using hboth

theorem alt_left (hp : Takes g p word rest) : Takes g (.alt p q) word rest :=
  fun pos => (hp pos).alt_left

theorem alt_right (hp : Fails g .atomic p (word ++ rest)) (hq : Takes g q word rest) :
    Takes g (.alt p q) word rest :=
  fun pos => (hp pos).alt_right (hq pos)

theorem opt_none (hp : Fails g .atomic p rest) : Takes g (.opt p) [] rest :=
  fun pos => (hp pos).opt_none

theorem notAhead (hp : Fails g .atomic p rest) : Takes g (.notAhead p) [] rest :=
  fun pos => (hp pos).notAhead

theorem star_none (hp : Fails g .atomic p rest) : Takes g (.star p) [] rest :=
  fun pos => (hp pos).star_none

theorem star (hp : Takes g p word (word' ++ rest)) (h : TakesMore g p word' rest) :
    Takes g (.star p) (word ++ word') rest := by
  intro pos
  rw [List.append_assoc, utf8Length_append, ← Nat.add_assoc]
  exact (hp pos).star (h _)

end Takes

namespace TakesMore

theorem stop (hp : Fails g .atomic p rest) : TakesMore g p [] rest :=
  fun pos => .stop (.blank_tight nofun) (hp pos)

theorem next (hp : Takes g p word (word' ++ rest)) (h : TakesMore g p word' rest) :
    TakesMore g p (word ++ word') rest := by
  intro pos
  rw [List.append_assoc, utf8Length_append, ← Nat.add_assoc]
  exact .next (.blank_tight nofun) (hp pos) (h _)

end TakesMore

/-- A row of pieces, each taken in front of whatever may follow it, is taken as a whole. -/
theorem takes_pieces {α : Type} {ok : List Char → Prop} {piece : α → List Char} (l : List α)
    (hpiece : ∀ a ∈ l, ∀ rest, ok rest → Takes g p (piece a) rest)
    (hok : ∀ a ∈ l, ∀ rest, ok (piece a ++ rest)) (hrest : ok rest)
    (hstop : Fails g .atomic p rest) :
    TakesMore g p (l.flatMap piece) rest ∧ Takes g (.star p) (l.flatMap piece) rest := by
  induction l with
  | nil => exact ⟨.stop hstop, .star_none hstop⟩
  | cons a l ih =>
      rw [List.forall_mem_cons] at hpiece hok
      have hl := (ih hpiece.2 hok.2).1
      have hnext : ok (l.flatMap piece ++ rest) := by
        cases l with
        | nil => exact hrest
        | cons b l =>
            rw [List.flatMap_cons, List.append_assoc]
            exact hok.2 b List.mem_cons_self _
      exact ⟨.next (hpiece.1 _ hnext) hl, .star (hpiece.1 _ hnext) hl⟩

end Gsc.Peg
