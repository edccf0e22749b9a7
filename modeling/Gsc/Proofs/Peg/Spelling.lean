import Gsc.Proofs.Peg.Layout
import Gsc.Proofs.Peg.Outcomes
import Mathlib.Computability.Language

/-! # What matched rules look like

A pattern without blanks between its parts matches texts of a regular language only, if what it
matches through other rules is left open. So the text of a matched rule that allows no blanks is of
the language of its pattern.
-/

namespace Gsc.Peg

open Computability

variable {R : Type}

def Pattern.language : Pattern R → Language Char
  | .text chars => {chars}
  | .one chars => {w | ∃ c, chars.holds c = true ∧ w = [c]}
  | .ending => 1
  | .rule _ => ⊤
  | .seq p q => p.language * q.language
  | .alt p q => p.language + q.language
  | .opt p => p.language + 1
  | .star p => p.language∗
  | .notAhead _ => 1
  | .blank => 1

def Task.language : Task R → Language Char
  | .once p => p.language
  | .more p => p.language∗

theorem append_mem_kstar {α : Type} {L : Language α} {front back : List α} (hfront : front ∈ L)
    (hback : back ∈ L∗) : front ++ back ∈ L∗ := by
  have hle : L * L∗ ≤ L∗ := mul_kstar_le_kstar
  exact hle (Language.append_mem_mul hfront hback)

theorem Kind.inside_ne_free {k : Kind} {s : Spacing} (h : k ≠ .normal ∨ s ≠ .free) :
    k.inside s ≠ .free := by
  cases k <;> simp_all [inside]

/-- A match passes over a text of the language. -/
theorem Derives.speaks {g : Grammar R} {task : Task R} {s : Spacing} {c after : Cursor}
    {trees : List (ParseTree R)} (h : Derives g task s c trees after) (hs : s ≠ .free) :
    ∃ chars ∈ task.language, c.Passes chars after := by
  induction h with
  | @text chars _ _ _ h => exact ⟨chars, rfl, Cursor.passes_of_strip? h⟩
  | one h =>
      obtain ⟨x, hx, hpass⟩ := passes_of_after? h
      exact ⟨[x], ⟨x, hx, rfl⟩, hpass⟩
  | ending | notAhead | tight => exact ⟨[], rfl, .refl _⟩
  | rule _ ih =>
      obtain ⟨chars, -, hpass⟩ := ih (Kind.inside_ne_free (.inr hs))
      exact ⟨chars, trivial, hpass⟩
  | seq _ hb _ ihp _ ihq =>
      obtain ⟨front, hfront, hpass⟩ := ihp hs
      obtain ⟨back, hback, hpass'⟩ := ihq hs
      rw [hb.eq_self_of_blank hs] at hpass'
      exact ⟨front ++ back, Language.append_mem_mul hfront hback, hpass.trans hpass'⟩
  | left _ ih | opt _ ih =>
      obtain ⟨chars, hchars, hpass⟩ := ih hs
      exact ⟨chars, .inl hchars, hpass⟩
  | right _ _ ih =>
      obtain ⟨chars, hchars, hpass⟩ := ih hs
      exact ⟨chars, .inr hchars, hpass⟩
  | without => exact ⟨[], .inr rfl, .refl _⟩
  | star _ _ ihp ihmore =>
      obtain ⟨front, hfront, hpass⟩ := ihp hs
      obtain ⟨back, hback, hpass'⟩ := ihmore hs
      exact ⟨front ++ back, append_mem_kstar hfront hback, hpass.trans hpass'⟩
  | never | enough => exact ⟨[], Language.nil_mem_kstar _, .refl _⟩
  | blank => exact (hs rfl).elim
  | again hb _ _ _ ihp ihmore =>
      obtain ⟨front, hfront, hpass⟩ := ihp hs
      obtain ⟨back, hback, hpass'⟩ := ihmore hs
      rw [hb.eq_self_of_blank hs] at hpass
      exact ⟨front ++ back, append_mem_kstar hfront hback, hpass.trans hpass'⟩

/-! ## Matches from their parts -/

/-- What holds of no trees, of trees one behind the other, and of the tree of a rule whose pattern
matched. -/
structure Gathers (g : Grammar R) (P : List (ParseTree R) → Prop) : Prop where
  nil : P []
  append : ∀ {front back}, P front → P back → P (front ++ back)
  node : ∀ {n r s c trees after}, (g.kind r).around s ≠ .atomic →
    outcome g n (g.body r) ((g.kind r).inside s) c = .matched trees after → P trees →
      P [.node r c after.pos trees]

namespace Gathers

variable {g : Grammar R} {P : List (ParseTree R) → Prop} {after : Cursor}
  {trees : List (ParseTree R)}

theorem of_derives (hP : Gathers g P) {task : Task R} {s : Spacing} {c : Cursor}
    (h : Derives g task s c trees after) : P trees := by
  induction h with
  | text | one | ending | without | never | notAhead | tight | enough => exact hP.nil
  | rule h ih =>
      unfold treesOf
      split
      · exact ih
      · rename_i hs
        obtain ⟨n, hbody⟩ := derives_iff_exists_outcome.1 h
        exact hP.node hs hbody ih
  | seq _ _ _ ihp _ ihq => exact hP.append ihp ihq
  | left _ ih | right _ _ ih | opt _ ih | blank _ ih => exact ih
  | star _ _ ihp ihmore | again _ _ _ _ ihp ihmore => exact hP.append ihp ihmore

theorem of_run (hP : Gathers g P) {root : R} {input : List Char}
    (h : (g.run root input).1 = .matched trees after) : P trees :=
  hP.of_derives (derives_of_run h)

end Gathers

/-! ## The text of a tree -/

/-- The text of every rule that allows no blanks is of the language of its pattern. -/
inductive Spelled (g : Grammar R) : List (ParseTree R) → Prop
  | nil : Spelled g []
  | node {r : R} {start : Cursor} {stop : Nat} {children trees : List (ParseTree R)}
      (h : g.kind r ≠ .normal → start.textUntil stop ∈ (g.body r).language)
      (hchildren : Spelled g children) (htrees : Spelled g trees) :
      Spelled g (.node r start stop children :: trees)

namespace Spelled

variable {g : Grammar R}

theorem append {front back : List (ParseTree R)} (h : Spelled g front) (h' : Spelled g back) :
    Spelled g (front ++ back) := by
  induction h with
  | nil => exact h'
  | node h hchildren htrees _ ih => exact .node h hchildren ih

theorem gathers (g : Grammar R) : Gathers g (Spelled g) where
  nil := .nil
  append := append
  node := by
    intro n r s c trees after _ hbody htrees
    refine .node (fun hk => ?_) htrees .nil
    obtain ⟨chars, hchars, hpass⟩ :=
      ((derivable g n).once hbody).speaks (Kind.inside_ne_free (.inl hk))
    rwa [hpass.textUntil_eq]

end Spelled

/-- The trees of a matched text are spelled. -/
theorem spelled_of_run {g : Grammar R} {root : R} {input : List Char} {trees : List (ParseTree R)}
    {after : Cursor} (h : (g.run root input).1 = .matched trees after) : Spelled g trees :=
  (Spelled.gathers g).of_run h

end Gsc.Peg
