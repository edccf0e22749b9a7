import Gsc.Proofs.Peg.Derivations
import Gsc.Text.Utf8

/-! # Where matched rules lie

The trees of a match lie in the matched text one behind the other, and the trees inside a tree
within its text. So the text of a tree is a piece of the input, at the offsets of its span.
-/

namespace Gsc.Peg

variable {R : Type}

/-! ## Places of one text -/

def utf8Length (chars : List Char) : Nat := (Utf8.encode chars).length

@[simp] theorem utf8Length_nil : utf8Length [] = 0 := rfl

@[simp] theorem utf8Length_cons (c : Char) (chars : List Char) :
    utf8Length (c :: chars) = c.utf8Size + utf8Length chars := by
  simp [utf8Length, Utf8.encode]

@[simp] theorem utf8Length_append (front back : List Char) :
    utf8Length (front ++ back) = utf8Length front + utf8Length back := by
  simp [utf8Length, Utf8.encode]

namespace Cursor

structure Passes (start : Cursor) (chars : List Char) (stop : Cursor) : Prop where
  rest : start.rest = chars ++ stop.rest
  pos : stop.pos = start.pos + utf8Length chars

theorem Passes.refl (c : Cursor) : c.Passes [] c := ⟨rfl, rfl⟩

theorem Passes.trans {a b c : Cursor} {front back : List Char} (h : a.Passes front b)
    (h' : b.Passes back c) : a.Passes (front ++ back) c := by
  constructor
  · rw [h.rest, h'.rest, List.append_assoc]
  · rw [h'.pos, h.pos, utf8Length_append, Nat.add_assoc]

theorem Passes.char (pos : Nat) (c : Char) (rest : List Char) :
    Passes ⟨pos, c :: rest⟩ [c] ⟨pos + c.utf8Size, rest⟩ := ⟨rfl, by simp⟩

theorem passes_of_next? {start stop : Cursor} {c : Char} (h : start.next? = some (c, stop)) :
    start.Passes [c] stop := by
  obtain ⟨pos, rest⟩ := start
  cases rest with
  | nil => cases h
  | cons d rest =>
      cases h
      exact .char pos c rest

theorem passes_of_strip? {start stop : Cursor} {chars : List Char}
    (h : start.strip? chars = some stop) : start.Passes chars stop := by
  fun_induction strip? start chars with
  | case1 cursor =>
      cases h
      exact .refl _
  | case2 => cases h
  | case3 pos rest c ts ih => exact (Passes.char pos c rest).trans (ih h)
  | case4 => cases h

theorem charsUntil_append (pos : Nat) (chars rest : List Char) :
    Text.charsUntil (pos + utf8Length chars) pos (chars ++ rest) = chars := by
  induction chars generalizing pos with
  | nil =>
      cases rest with
      | nil => rfl
      | cons c rest => rw [List.nil_append, Text.charsUntil, if_neg (by simp)]
  | cons c chars ih =>
      have hsize := c.utf8Size_pos
      rw [List.cons_append, Text.charsUntil, utf8Length_cons, if_pos (by omega),
        ← Nat.add_assoc, ih]

/-- The text up to the offset of a later place is what lies between. -/
theorem Passes.textUntil_eq {start stop : Cursor} {chars : List Char}
    (h : start.Passes chars stop) : start.textUntil stop.pos = chars := by
  rw [textUntil, h.rest, h.pos, charsUntil_append]

end Cursor

/-! ## Trees between two places -/

/-- Trees that lie between two places, one behind the other, each around its children. -/
inductive Laid : Cursor → List (ParseTree R) → Cursor → Prop
  | nil {before after : Cursor} {chars : List Char} (h : before.Passes chars after) :
      Laid before [] after
  | node {before start stop after : Cursor} {chars : List Char} {r : R}
      {children trees : List (ParseTree R)} (h : before.Passes chars start)
      (hchildren : Laid start children stop) (htrees : Laid stop trees after) :
      Laid before (.node r start stop.pos children :: trees) after

namespace Laid

theorem passes {before after : Cursor} {trees : List (ParseTree R)} (h : Laid before trees after) :
    ∃ chars, before.Passes chars after := by
  induction h with
  | nil h => exact ⟨_, h⟩
  | node h hchildren htrees ih ih' =>
      obtain ⟨inner, hinner⟩ := ih
      obtain ⟨outer, houter⟩ := ih'
      exact ⟨_, (h.trans hinner).trans houter⟩

theorem after_passes {before start after : Cursor} {chars : List Char} {trees : List (ParseTree R)}
    (hp : before.Passes chars start) (h : Laid start trees after) : Laid before trees after := by
  cases h with
  | nil h => exact .nil (hp.trans h)
  | node h hchildren htrees => exact .node (hp.trans h) hchildren htrees

theorem append {before middle after : Cursor} {front back : List (ParseTree R)}
    (h : Laid before front middle) (h' : Laid middle back after) :
    Laid before (front ++ back) after := by
  induction h with
  | nil h => exact h'.after_passes h
  | node h hchildren htrees ih ih' => exact .node h hchildren (ih' h')

/-- A tree among others has its place between the two ends. -/
theorem of_mem {before after : Cursor} {trees : List (ParseTree R)} {t : ParseTree R}
    (h : Laid before trees after) (ht : t ∈ trees) :
    ∃ r start stop children front back, t = .node r start stop.pos children ∧
      before.Passes front start ∧ Laid start children stop ∧ stop.Passes back after := by
  induction h with
  | nil => cases ht
  | node h hchildren htrees ih ih' =>
      rcases List.mem_cons.1 ht with rfl | ht
      · obtain ⟨back, hback⟩ := htrees.passes
        exact ⟨_, _, _, _, _, back, rfl, h, hchildren, hback⟩
      · obtain ⟨r, start, stop, children, front, back, rfl, hfront, hinner, hback⟩ := ih' ht
        obtain ⟨inner, hpass⟩ := hchildren.passes
        exact ⟨r, start, stop, children, _, back, rfl, (h.trans hpass).trans hfront, hinner, hback⟩

/-- Of two trees the first ends before the second begins. -/
theorem pairwise_span {before after : Cursor} {trees : List (ParseTree R)}
    (h : Laid before trees after) : trees.Pairwise fun t u => t.span.stop ≤ u.span.start := by
  induction h with
  | nil => exact .nil
  | node h hchildren htrees ih ih' =>
      refine .cons ?_ ih'
      intro u hu
      obtain ⟨r, start, stop, children, front, back, rfl, hfront, -, -⟩ := htrees.of_mem hu
      simp only [ParseTree.span, hfront.pos]
      exact Nat.le_add_right _ _

end Laid

/-! ## Matching -/

theorem passes_of_after? {chars : CharClass} {c after : Cursor}
    (h : chars.after? c = some after) : ∃ x, chars.holds x = true ∧ c.Passes [x] after := by
  unfold CharClass.after? at h
  split at h
  · next x stop hn =>
      split at h
      · cases h
        exact ⟨x, ‹_›, Cursor.passes_of_next? hn⟩
      · cases h
  · cases h

theorem laid_treesOf {r : R} {s : Spacing} {c after : Cursor} {trees : List (ParseTree R)}
    (h : Laid c trees after) : Laid c (treesOf r c s trees after) after := by
  unfold treesOf
  split
  · exact h
  · exact .node (.refl c) h (.nil (.refl after))

/-- What is matched lies between the place where it was tried and the place behind it. -/
theorem Derives.laid {g : Grammar R} {task : Task R} {s : Spacing} {c after : Cursor}
    {trees : List (ParseTree R)} (h : Derives g task s c trees after) : Laid c trees after := by
  induction h with
  | text h => exact .nil (Cursor.passes_of_strip? h)
  | one h =>
      obtain ⟨x, -, hpass⟩ := passes_of_after? h
      exact .nil hpass
  | ending | without | never | notAhead | tight | enough => exact .nil (.refl _)
  | rule _ ih => exact laid_treesOf ih
  | seq _ _ _ ihp ihb ihq =>
      obtain ⟨blanks, hpass⟩ := ihb.passes
      exact ihp.append (ihq.after_passes hpass)
  | left _ ih | right _ _ ih | opt _ ih | blank _ ih => exact ih
  | star _ _ ihp ihmore => exact ihp.append ihmore
  | again _ _ _ ihb ihp ihmore =>
      obtain ⟨blanks, hpass⟩ := ihb.passes
      exact (ihp.append ihmore).after_passes hpass

theorem laid_of_eval {g : Grammar R} {n : Nat} {p : Pattern R} {mode : Mode} {c after : Cursor}
    {log log' : Attempts R} {trees : List (ParseTree R)}
    (h : eval g n p mode c log = (.matched trees after, log')) : Laid c trees after :=
  ((derivable g n).once (outcome_of_eval h)).laid

end Gsc.Peg
