import Gsc.Proofs.Deflate.Format
import Mathlib.Algebra.Group.Nat.Defs

/-! # The tree of a code

The tree that is built from code lengths holds every symbol at the end of its code word, and there
is such a tree for every code.
-/

namespace Gsc.Deflate

open CodeTree

theorem length_wordBits (width n : Nat) : (wordBits width n).length = width := by
  induction width generalizing n with
  | zero => rfl
  | succ width ih => rw [wordBits, List.length_append, ih, List.length_singleton]

theorem codeWord?_eq_some {lengths : List Nat} {symbol : Nat} {word : List Bool}
    (h : codeWord? lengths symbol = some word) :
    ∃ length, lengths[symbol]? = some length ∧ 0 < length ∧
      word = wordBits length (firstWord lengths length + (lengths.take symbol).count length) := by
  unfold codeWord? at h
  split at h
  · cases h
  · cases h
  · rename_i length hne hl
    cases h
    exact ⟨length, hl, Nat.pos_of_ne_zero hne, rfl⟩

theorem length_codeWord_pos {lengths : List Nat} {symbol : Nat} {word : List Bool}
    (h : codeWord? lengths symbol = some word) : 0 < word.length := by
  obtain ⟨length, -, hpos, rfl⟩ := codeWord?_eq_some h
  rw [length_wordBits]
  exact hpos

namespace CodeTree

/-! ## Walking down a tree -/

def subtree? : CodeTree → List Bool → Option CodeTree
  | t, [] => some t
  | fork left right, b :: bits => (if b then right else left).subtree? bits
  | _, _ :: _ => none

theorem subtree?_concat {t left right : CodeTree} {bits : List Bool} (b : Bool)
    (h : t.subtree? bits = some (fork left right)) :
    t.subtree? (bits ++ [b]) = some (if b then right else left) := by
  induction bits generalizing t with
  | nil =>
      cases h
      simp only [List.nil_append, subtree?]
  | cons c bits ih =>
      cases t with
      | unused => cases h
      | symbol value => cases h
      | fork l r => exact ih h

/-! ## Levels -/

/-- The tree at an index of a level is the child of the tree at half the index of the paired level,
on the side that the lowest bit tells. -/
theorem getElem?_pairUp {trees : List CodeTree} {i : Nat} {t : CodeTree} (h : trees[i]? = some t) :
    ∃ left right, (pairUp trees)[i / 2]? = some (fork left right) ∧
      t = if i.testBit 0 then right else left := by
  fun_induction pairUp trees generalizing i with
  | case1 => simp at h
  | case2 u =>
      cases i with
      | zero =>
          cases h
          exact ⟨t, unused, rfl, rfl⟩
      | succ i => simp at h
  | case3 u v rest ih =>
      match i with
      | 0 =>
          cases h
          exact ⟨t, v, rfl, rfl⟩
      | 1 =>
          cases h
          exact ⟨u, t, rfl, rfl⟩
      | i + 2 =>
          obtain ⟨left, right, hp, ht⟩ := ih h
          refine ⟨left, right, ?_, ?_⟩
          · rw [show (i + 2) / 2 = i / 2 + 1 by omega]
            exact hp
          · rw [ht]
            simp [Nat.testBit_zero]

theorem length_pairUp (trees : List CodeTree) :
    (pairUp trees).length = (trees.length + 1) / 2 := by
  fun_induction pairUp trees with
  | case1 => rfl
  | case2 => simp
  | case3 t u rest ih =>
      simp only [List.length_cons, ih]
      omega

theorem isComplete_of_mem_pairUp {trees : List CodeTree} (heven : trees.length % 2 = 0)
    (h : ∀ t ∈ trees, t.isComplete = true) : ∀ t ∈ pairUp trees, t.isComplete = true := by
  fun_induction pairUp trees with
  | case1 => exact h
  | case2 => simp at heven
  | case3 t u rest ih =>
      have hrest : ∀ t ∈ rest, t.isComplete = true := by
        intro v hv
        exact h v (by simp [hv])
      intro v hv
      rcases List.mem_cons.1 hv with rfl | hv
      · simp [isComplete, h t (by simp), h u (by simp)]
      · exact ih (by simp only [List.length_cons] at heven; omega) hrest v hv

theorem getElem?_filter_countP {α : Type} {p : α → Bool} {l : List α} {i : Nat} {x : α}
    (h : l[i]? = some x) (hx : p x = true) : (l.filter p)[(l.take i).countP p]? = some x := by
  induction l generalizing i with
  | nil => simp at h
  | cons y l ih =>
      cases i with
      | zero =>
          cases h
          simp [hx]
      | succ i =>
          have hi := ih h
          by_cases hy : p y = true
          · simp [hy, hi]
          · simp [hy, hi]

theorem map_fst_zipIdx_take (lengths : List Nat) (i : Nat) :
    (lengths.zipIdx.take i).map Prod.fst = lengths.take i := by
  rw [List.map_take, List.zipIdx_map_fst]

/-- The symbols of one length are numbered in order. -/
theorem getElem?_symbolsOf {lengths : List Nat} {length symbol : Nat}
    (h : lengths[symbol]? = some length) :
    (symbolsOf lengths length)[(lengths.take symbol).count length]?
      = some (CodeTree.symbol symbol) := by
  have hcount : (lengths.take symbol).count length
      = (lengths.zipIdx.take symbol).countP fun p => decide (p.1 = length) := by
    rw [← map_fst_zipIdx_take, List.count_eq_countP, List.countP_map]
    rfl
  have hpair : lengths.zipIdx[symbol]? = some (length, symbol) := by
    simp [List.getElem?_zipIdx, h]
  rw [symbolsOf, hcount, List.getElem?_map, getElem?_filter_countP hpair (by simp)]
  rfl

theorem length_symbolsOf (lengths : List Nat) (length : Nat) :
    (symbolsOf lengths length).length = lengths.count length := by
  rw [symbolsOf, List.length_map, ← List.countP_eq_length_filter]
  conv => rhs; rw [← List.zipIdx_map_fst 0 lengths, List.count_eq_countP, List.countP_map]
  rfl

/-- What stands at an index of the level of some depth is found below the bits of its number. -/
theorem subtree?_of_level {lengths : List Nat}
    (hroots : (pairUp (levelAbove lengths 14)).length ≤ 1) (depth : Nat) (hdepth : depth ≤ 14)
    {i : Nat} {u : CodeTree}
    (h : (levelAbove lengths (14 - depth))[i]? = some u) :
    ∃ t, pairUp (levelAbove lengths 14) = [t] ∧
      t.subtree? (wordBits (depth + 1) (firstWord lengths (depth + 1) + i)) = some u := by
  -- Downwards from the root: a level is found below the level above it, which begins with the
  -- words that end there.
  induction depth generalizing i u with
  | zero =>
      rw [Nat.sub_zero] at h
      obtain ⟨left, right, hp, hu⟩ := getElem?_pairUp h
      obtain ⟨hlt, ht⟩ := List.getElem?_eq_some_iff.1 hp
      have hzero : i / 2 = 0 := by omega
      have hlength : (pairUp (levelAbove lengths 14)).length = 1 := by omega
      obtain ⟨t, hroot⟩ := List.length_eq_one_iff.1 hlength
      simp only [hroot, hzero, List.getElem_cons_zero] at ht
      refine ⟨t, hroot, ?_⟩
      rw [ht, hu]
      simp [firstWord, wordCount, wordBits, subtree?]
  | succ depth ih =>
      obtain ⟨left, right, hp, hu⟩ := getElem?_pairUp h
      have hlevel : levelAbove lengths (14 - depth)
          = symbolsOf lengths (depth + 1) ++ pairUp (levelAbove lengths (14 - (depth + 1))) := by
        rw [show 14 - depth = 14 - (depth + 1) + 1 by omega, levelAbove]
        rw [show maxLength - (14 - (depth + 1) + 1) = depth + 1 by unfold maxLength; omega]
      have hparent : (levelAbove lengths (14 - depth))[wordCount lengths (depth + 1) + i / 2]?
          = some (fork left right) := by
        rw [hlevel, List.getElem?_append_right, length_symbolsOf]
        · rw [wordCount, if_neg (by omega), Nat.add_sub_cancel_left]
          exact hp
        · rw [length_symbolsOf, wordCount, if_neg (by omega)]
          omega
      obtain ⟨t, hroot, ht⟩ := ih (by omega) hparent
      refine ⟨t, hroot, ?_⟩
      have hhalf : (firstWord lengths (depth + 1 + 1) + i) / 2
          = firstWord lengths (depth + 1) + (wordCount lengths (depth + 1) + i / 2) := by
        rw [firstWord]
        omega
      have hbit : (firstWord lengths (depth + 1 + 1) + i).testBit 0 = i.testBit 0 := by
        rw [firstWord, Nat.testBit_zero, Nat.testBit_zero]
        congr 2
        omega
      rw [wordBits, hhalf, hbit, hu]
      exact subtree?_concat _ ht

theorem subtree?_codeWord {lengths : List Nat} {symbol : Nat} {word : List Bool}
    (hbounded : ∀ n ∈ lengths, n ≤ maxLength)
    (hroots : (pairUp (levelAbove lengths 14)).length ≤ 1)
    (h : codeWord? lengths symbol = some word) :
    ∃ t, pairUp (levelAbove lengths 14) = [t] ∧
      t.subtree? word = some (CodeTree.symbol symbol) := by
  obtain ⟨length, hl, hpos, rfl⟩ := codeWord?_eq_some h
  have hle := hbounded length (List.mem_of_getElem? hl)
  unfold maxLength at hle
  have hplace : (levelAbove lengths (14 - (length - 1)))[(lengths.take symbol).count length]?
      = some (CodeTree.symbol symbol) := by
    have hsymbol := getElem?_symbolsOf hl
    by_cases hlast : length = 15
    · rw [hlast] at hsymbol ⊢
      exact hsymbol
    · rw [show 14 - (length - 1) = 14 - length + 1 by omega, levelAbove,
        show maxLength - (14 - length + 1) = length by unfold maxLength; omega]
      rw [List.getElem?_append_left (List.getElem?_eq_some_iff.1 hsymbol).1]
      exact hsymbol
  have hsub := subtree?_of_level hroots (length - 1) (by omega) hplace
  rw [Nat.sub_add_cancel hpos] at hsub
  exact hsub

/-! ## Every code has a tree -/

theorem isComplete_of_mem_symbolsOf {lengths : List Nat} {length : Nat} {t : CodeTree}
    (h : t ∈ symbolsOf lengths length) : t.isComplete = true := by
  obtain ⟨p, -, rfl⟩ := List.mem_map.1 h
  rfl

/-- If the words use up all rows of bits, then the trees of a level stand for all rows that are no
longer than its words and do not go on a shorter word. -/
theorem level_of_full {lengths : List Nat} (h : firstWord lengths (maxLength + 1) = 65536)
    (k : Nat) (hk : k ≤ 14) :
    (levelAbove lengths k).length + firstWord lengths (15 - k) = 2 ^ (15 - k) ∧
      ∀ t ∈ levelAbove lengths k, t.isComplete = true := by
  have hfirst (length : Nat) : firstWord lengths (length + 1 + 1)
      = 2 * (firstWord lengths (length + 1) + lengths.count (length + 1)) := by
    rw [firstWord, wordCount, if_neg (by omega)]
  induction k with
  | zero =>
      refine ⟨?_, fun t => isComplete_of_mem_symbolsOf⟩
      have hlast : firstWord lengths 16 = 2 * (firstWord lengths 15 + lengths.count 15) := hfirst 14
      rw [show maxLength + 1 = 16 from rfl] at h
      simp only [levelAbove, length_symbolsOf, maxLength, Nat.sub_zero]
      omega
  | succ k ih =>
      obtain ⟨hlength, hall⟩ := ih (by omega)
      obtain ⟨n, hn⟩ : ∃ n, 15 - k = n + 1 + 1 := ⟨13 - k, by omega⟩
      have hsucc : 15 - (k + 1) = n + 1 := by omega
      rw [hn, hfirst, Nat.pow_succ] at hlength
      rw [levelAbove, maxLength, hsucc]
      constructor
      · rw [List.length_append, length_symbolsOf, length_pairUp]
        omega
      · intro t ht
        rcases List.mem_append.1 ht with ht | ht
        · exact isComplete_of_mem_symbolsOf ht
        · exact isComplete_of_mem_pairUp (by omega) hall t ht

/-- No level has more trees than there are words from it on. -/
theorem length_levelAbove_le (lengths : List Nat) (k : Nat) (hk : k ≤ 14) :
    (levelAbove lengths k).length ≤ lengths.countP fun n => decide (15 - k ≤ n) := by
  induction k with
  | zero =>
      rw [levelAbove, length_symbolsOf, List.count_eq_countP]
      apply List.countP_mono_left
      intro n _ hn
      simp only [maxLength, beq_iff_eq] at hn
      simp [hn]
  | succ k ih =>
      have hle := ih (by omega)
      have hsplit : (lengths.countP fun n => decide (15 - (k + 1) ≤ n))
          = lengths.count (15 - (k + 1)) + lengths.countP fun n => decide (15 - k ≤ n) := by
        clear ih hle
        induction lengths with
        | nil => rfl
        | cons n lengths ih =>
            simp only [List.countP_cons, List.count_cons, ih, beq_iff_eq, decide_eq_true_eq]
            split <;> split <;> split <;> omega
      rw [levelAbove, List.length_append, length_symbolsOf, length_pairUp, hsplit, maxLength]
      omega

theorem roots_of_isCode {lengths : List Nat} (h : IsCode lengths) :
    (pairUp (levelAbove lengths 14)).length ≤ 1 ∧
      ((∀ t ∈ pairUp (levelAbove lengths 14), t.isComplete = true)
        ∨ (lengths.filter (· ≠ 0)).length ≤ 1) := by
  rcases h.full with hfull | hfew
  · obtain ⟨hlength, hall⟩ := level_of_full hfull 14 (Nat.le_refl 14)
    have hfirst : firstWord lengths (15 - 14) = 0 := rfl
    rw [hfirst] at hlength
    refine ⟨?_, .inl (isComplete_of_mem_pairUp (by omega) hall)⟩
    rw [length_pairUp]
    omega
  · refine ⟨?_, .inr hfew⟩
    have hle := length_levelAbove_le lengths 14 (Nat.le_refl 14)
    have hused : (lengths.countP fun n => decide (15 - 14 ≤ n))
        ≤ (lengths.filter (· ≠ 0)).length := by
      rw [← List.countP_eq_length_filter]
      apply List.countP_mono_left
      intro n _ hn
      simp only [decide_eq_true_eq] at hn ⊢
      omega
    rw [length_pairUp]
    omega

/-- Every code has a tree, in which the symbols stand at the ends of their words. -/
theorem ofLengths?_of_isCode {lengths : List Nat} (h : IsCode lengths) :
    ∃ t, ofLengths? lengths = some t ∧ ∀ symbol word, codeWord? lengths symbol = some word →
      t.subtree? word = some (CodeTree.symbol symbol) := by
  obtain ⟨hroots, hcomplete⟩ := roots_of_isCode h
  have hwords : ∀ symbol word, codeWord? lengths symbol = some word →
      ∃ t, pairUp (levelAbove lengths 14) = [t] ∧ t.subtree? word = some (.symbol symbol) :=
    fun symbol word hw => subtree?_codeWord h.bounded hroots hw
  unfold ofLengths?
  rw [show maxLength - 1 = 14 from rfl]
  match hr : pairUp (levelAbove lengths 14) with
  | [] =>
      refine ⟨unused, rfl, ?_⟩
      intro symbol word hw
      obtain ⟨t, ht, -⟩ := hwords symbol word hw
      cases hr.symm.trans ht
  | [t] =>
      have hgood : t.isComplete = true ∨ (lengths.filter (· ≠ 0)).length ≤ 1 :=
        hcomplete.imp_left fun hall => hall t (by simp [hr])
      refine ⟨t, if_pos hgood, ?_⟩
      intro symbol word hw
      obtain ⟨t', ht, hsub⟩ := hwords symbol word hw
      cases hr.symm.trans ht
      exact hsub
  | _ :: _ :: _ => simp [hr] at hroots

end CodeTree

end Gsc.Deflate
