import Gsc.Proofs.Peg.Layout
import Gsc.Source.Basic
import Mathlib.Data.List.Basic
import Mathlib.Data.List.Count
import Mathlib.Data.List.Induction
import Mathlib.Data.Prod.Lex
import Mathlib.Order.Monotone.Basic

/-! # Positions in a text

The position behind some text counts its line feeds, and the characters behind the last of them. A
character that is not part of a line end has its position among the lines of the text, and positions
come in the order of offsets.
-/

namespace Gsc

open Gsc.Peg

namespace Position

/-! ## Counting lines -/

theorem walk_eq_foldl (offset pos : Nat) (p : Position) (content : List Char) :
    walk offset pos p content = (Text.charsUntil offset pos content).foldl step p := by
  fun_induction walk offset pos p content with
  | case1 => rfl
  | case2 pos p c rest h =>
      rw [Text.charsUntil, if_neg (Nat.not_lt.2 h)]
      rfl
  | case3 pos p c rest h ih =>
      rw [Text.charsUntil, if_pos (Nat.lt_of_not_le h), ih, List.foldl_cons]

/-- The position of an offset is the one behind the text in front of it. -/
theorem ofOffset_append (front back : List Char) :
    ofOffset (front ++ back) (utf8Length front) = front.foldl step first := by
  have h := Cursor.charsUntil_append 0 front back
  rw [Nat.zero_add] at h
  rw [ofOffset, walk_eq_foldl, h]

/-- A carriage return in front of a line feed makes no difference to the position behind both. -/
theorem behindCrLf_eq_foldl (p : Position) (chars : List Char) :
    behindCrLf p chars = chars.foldl step p := by
  fun_induction behindCrLf p chars with
  | case1 => rfl
  | case2 p rest ih => exact ih
  | case3 p rest ih => exact ih
  | case4 p c rest _ hc ih =>
      have hstep : p.step c = p.right := if_neg fun h => hc h
      rw [ih, List.foldl_cons, hstep]

theorem line_foldl_step (chars : List Char) :
    (chars.foldl step first).line = chars.count '\n' + 1 := by
  induction chars using List.reverseRecOn with
  | nil => rfl
  | append_singleton chars c ih =>
      rw [List.foldl_concat, List.count_append, List.count_singleton', step]
      split
      · simp only [newLine, ih]
      · simp only [right, ih, Nat.add_zero]

theorem column_foldl_step (chars : List Char) :
    (chars.foldl step first).column = (chars.reverse.takeWhile (· ≠ '\n')).length + 1 := by
  induction chars using List.reverseRecOn with
  | nil => rfl
  | append_singleton chars c ih =>
      rw [List.foldl_concat, List.reverse_concat, step]
      split
      · rename_i hc
        simp [newLine, hc]
      · rename_i hc
        simp [right, hc, ih]

/-- The line of a position counts line feeds, its column the characters behind the last one. -/
structure Behind (p : Position) (front : List Char) : Prop where
  line : p.line = front.count '\n' + 1
  column : p.column = (front.reverse.takeWhile (· ≠ '\n')).length + 1

theorem behind_foldl_step (front : List Char) : (front.foldl step first).Behind front :=
  ⟨line_foldl_step front, column_foldl_step front⟩

/-! ## The order of positions -/

/-- Positions are ordered by line, and within a line by column. -/
def key (p : Position) : Nat ×ₗ Nat := toLex (p.line, p.column)

theorem key_lt_step (p : Position) (c : Char) : p.key < (p.step c).key := by
  rw [key, key, Prod.Lex.toLex_lt_toLex, step]
  split
  · exact .inl (Nat.lt_succ_self p.line)
  · exact .inr ⟨rfl, Nat.lt_succ_self p.column⟩

theorem key_le_foldl_step (p : Position) (chars : List Char) :
    p.key ≤ (chars.foldl step p).key := by
  induction chars generalizing p with
  | nil => exact le_refl _
  | cons c chars ih => exact (key_lt_step p c).le.trans (ih (p.step c))

/-- Further on in a text stands a later position. -/
theorem key_lt_foldl_step (p : Position) (c : Char) (chars : List Char) :
    p.key < ((c :: chars).foldl step p).key :=
  (key_lt_step p c).trans_le (key_le_foldl_step (p.step c) chars)

end Position

/-! ## Lines -/

/-- A character in front of some text does not begin a line end there. -/
def InLine (c : Char) (back : List Char) : Prop :=
  c ≠ '\n' ∧ ¬ (c = '\r' ∧ back.head? = some '\n')

/-- A character within a line goes to the front of the first line behind it. -/
theorem linesOf_cons {c : Char} {rest : List Char} (h : InLine c rest) :
    linesOf (c :: rest) = (c :: (linesOf rest).headD []) :: (linesOf rest).tail := by
  obtain ⟨hfeed, hreturn⟩ := h
  rw [linesOf]
  · cases linesOf rest with
    | nil => rfl
    | cons line lines => rfl
  · exact hfeed
  · intro back hc hback
    exact hreturn ⟨hc, by rw [hback]; rfl⟩

/-- A carriage return in front of a line feed makes no difference to the lines. -/
theorem linesOf_return_feed (rest : List Char) :
    linesOf ('\r' :: '\n' :: rest) = linesOf ('\n' :: rest) := by
  rw [linesOf, linesOf]

/-- A character within a line stands in the line and at the column that were counted in front of it,
from `p` on: columns of the first line go on behind `p`, those of the others begin anew. -/
theorem exists_getElem?_linesOf {c : Char} {back : List Char} (h : InLine c back)
    (front : List Char) (p : Position) :
    ∃ i j text, (linesOf (front ++ c :: back))[i]? = some text ∧ text[j]? = some c ∧
      (front.foldl Position.step p).line = p.line + i ∧
      (front.foldl Position.step p).column = (if i = 0 then p.column else 1) + j := by
  induction front generalizing p with
  | nil =>
      refine ⟨0, 0, c :: (linesOf back).headD [], ?_, rfl, rfl, rfl⟩
      rw [List.nil_append, linesOf_cons h]
      rfl
  | cons x front ih =>
      rw [List.cons_append, List.foldl_cons]
      by_cases hfeed : x = '\n'
      · subst hfeed
        obtain ⟨i, j, text, hi, hj, hline, hcolumn⟩ := ih p.newLine
        refine ⟨i + 1, j, text, hi, hj, ?_, ?_⟩
        · rw [← Nat.add_assoc, Nat.add_right_comm]
          exact hline
        · rw [show p.newLine.column = 1 from rfl, ite_self] at hcolumn
          exact hcolumn
      have hstep : p.step x = p.right := if_neg hfeed
      obtain ⟨i, j, text, hi, hj, hline, hcolumn⟩ := ih p.right
      rw [hstep]
      by_cases hreturn : x = '\r' ∧ (front ++ c :: back).head? = some '\n'
      · -- The line feed behind a carriage return ends the line, so the character stands further on.
        obtain ⟨rfl, hhead⟩ := hreturn
        obtain ⟨rest, hrest⟩ := List.head?_eq_some_iff.1 hhead
        rw [hrest] at hi ⊢
        rw [linesOf_return_feed]
        have hlater : i ≠ 0 := by
          rintro rfl
          cases hi
          cases hj
        rw [if_neg hlater] at hcolumn
        exact ⟨i, j, text, hi, hj, hline, by rw [if_neg hlater, hcolumn]⟩
      · rw [linesOf_cons ⟨hfeed, hreturn⟩]
        cases i with
        | zero =>
            have hhead : (linesOf (front ++ c :: back)).headD [] = text := by
              rw [List.headD_eq_head?_getD, List.head?_eq_getElem?, hi]
              rfl
            refine ⟨0, j + 1, x :: text, by rw [hhead]; rfl, hj, hline, ?_⟩
            have hright : p.right.column = p.column + 1 := rfl
            rw [hcolumn, if_pos rfl, if_pos rfl, hright]
            omega
        | succ i =>
            refine ⟨i + 1, j, text, ?_, hj, hline, hcolumn⟩
            rw [List.getElem?_cons_succ, List.getElem?_tail]
            exact hi

/-! ## Characters at offsets -/

/-- A character stands at a byte offset of a text, and is not part of a line end. -/
def HoldsAt (content : List Char) (offset : Nat) (c : Char) : Prop :=
  ∃ front back, content = front ++ c :: back ∧ offset = utf8Length front ∧ InLine c back

/-- The character at a position is that of the line and column counted from one. -/
structure Position.Names (p : Position) (content text : List Char) (c : Char) : Prop where
  line_pos : 0 < p.line
  line : (linesOf content)[p.line - 1]? = some text
  column_pos : 0 < p.column
  column : text[p.column - 1]? = some c

theorem HoldsAt.names {content : List Char} {offset : Nat} {c : Char}
    (h : HoldsAt content offset c) :
    ∃ text, (Position.ofOffset content offset).Names content text c := by
  obtain ⟨front, back, rfl, rfl, hin⟩ := h
  obtain ⟨i, j, text, hi, hj, hline, hcolumn⟩ :=
    exists_getElem?_linesOf hin front Position.first
  rw [show Position.first.line = 1 from rfl] at hline
  rw [show Position.first.column = 1 from rfl, ite_self] at hcolumn
  rw [Position.ofOffset_append]
  refine ⟨text, by omega, ?_, by omega, ?_⟩
  · rw [hline, Nat.add_sub_cancel_left, hi]
  · rw [hcolumn, Nat.add_sub_cancel_left, hj]

/-- Of two places in a text, the one at the smaller offset has less text in front of it. -/
theorem exists_append_of_utf8Length_lt {front front' back back' : List Char}
    (h : front ++ back = front' ++ back') (hlt : utf8Length front < utf8Length front') :
    ∃ c middle, front' = front ++ c :: middle := by
  obtain ⟨middle, rfl⟩ | ⟨middle, rfl⟩ := List.prefix_or_prefix_of_prefix
    (List.prefix_append front back) (h ▸ List.prefix_append front' back')
  · cases middle with
    | nil =>
        rw [List.append_nil] at hlt
        exact (Nat.lt_irrefl _ hlt).elim
    | cons c middle => exact ⟨c, middle, rfl⟩
  · rw [utf8Length_append] at hlt
    omega

theorem strictMonoOn_key_ofOffset (content : List Char) :
    StrictMonoOn (fun offset => (Position.ofOffset content offset).key)
      {offset | ∃ c, HoldsAt content offset c} := by
  rintro offset ⟨c, front, back, hcontent, rfl, -⟩ offset' ⟨c', front', back', hcontent', rfl, -⟩
    hlt
  obtain ⟨x, middle, rfl⟩ :=
    exists_append_of_utf8Length_lt (hcontent.symm.trans hcontent') hlt
  have hfront : Position.ofOffset content (utf8Length front) = front.foldl .step .first := by
    rw [hcontent, Position.ofOffset_append]
  have hbehind : Position.ofOffset content (utf8Length (front ++ x :: middle))
      = (x :: middle).foldl .step (front.foldl .step .first) := by
    rw [hcontent', Position.ofOffset_append, List.foldl_append]
  change (Position.ofOffset _ _).key < (Position.ofOffset _ _).key
  rw [hfront, hbehind]
  exact Position.key_lt_foldl_step _ x middle

end Gsc
