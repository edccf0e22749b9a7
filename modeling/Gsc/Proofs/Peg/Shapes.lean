import Gsc.Proofs.Peg.Spelling
import Gsc.Proofs.Peg.Termination
import Mathlib.Data.List.Forall2

/-! # The rules inside a matched rule

A pattern records rules in a row, and its shape says which rows those are: the rows of a pattern are
a regular language over the rules. Every tree of a matched text has under it a row of its rule's
pattern, provided that nothing is recorded where rules go unrecorded. What stands in one tree ends
before anything in a later one begins, the tree of a rule that takes a character is not empty, and a
rule that is nothing but another one has its place.
-/

namespace Gsc.Peg

open Computability

variable {R : Type}

namespace Pattern

variable {α β : Type}

/-- The rows that a pattern may give, if a rule in it gives anything that `M` allows for it. -/
def rows (M : R → α → Prop) : Pattern R → Language α
  | .rule r => {w | ∃ a, M r a ∧ w = [a]}
  | .seq p q => p.rows M * q.rows M
  | .alt p q => p.rows M + q.rows M
  | .opt p => p.rows M + 1
  | .star p => (p.rows M)∗
  | .text _ | .one _ | .ending | .notAhead _ | .blank => 1

theorem rows_rule (r : R) : (Pattern.rule r).rows Eq = {[r]} := by
  ext w
  constructor
  · rintro ⟨_, rfl, h⟩
    exact h
  · intro h
    exact ⟨r, rfl, h⟩

section

variable {M : R → α → Prop} {p q : Pattern R} {row : List α}

@[simp] theorem rows_lit {word : String} : (lit word : Pattern R).rows M = 1 := rfl

@[simp] theorem rows_seq : (Pattern.seq p q).rows M = p.rows M * q.rows M := rfl

@[simp] theorem rows_sequence_nil : (Pattern.sequence p []).rows M = p.rows M := rfl

@[simp] theorem rows_sequence_cons {rest : List (Pattern R)} :
    (Pattern.sequence p (q :: rest)).rows M = p.rows M * (Pattern.sequence q rest).rows M := rfl

@[simp] theorem rows_star : (Pattern.star p).rows M = (p.rows M)∗ := rfl

@[simp] theorem mem_rows_rule {r : R} : row ∈ (Pattern.rule r).rows M ↔ ∃ a, M r a ∧ row = [a] :=
  .rfl

@[simp] theorem mem_rows_rule_mul {r : R} {L : Language α} :
    row ∈ (Pattern.rule r).rows M * L ↔ ∃ a rest, M r a ∧ rest ∈ L ∧ row = a :: rest := by
  constructor
  · rintro ⟨_, ⟨a, ha, rfl⟩, rest, hrest, rfl⟩
    exact ⟨a, rest, ha, hrest, rfl⟩
  · rintro ⟨a, rest, ha, hrest, rfl⟩
    exact ⟨[a], ⟨a, ha, rfl⟩, rest, hrest, rfl⟩

@[simp] theorem mem_rows_opt : row ∈ (Pattern.opt p).rows M ↔ row ∈ p.rows M ∨ row = [] := .rfl

@[simp] theorem mem_rows_opt_mul {L : Language α} :
    row ∈ (Pattern.opt p).rows M * L ↔ row ∈ p.rows M * L ∨ row ∈ L := by
  rw [rows, add_mul, one_mul]
  exact .rfl

/-- What holds of the rows of every alternative holds of those of the choice. -/
theorem forall_mem_rows_choice {P : List α → Prop} {ps : List (Pattern R)}
    (h : ∀ q ∈ p :: ps, ∀ row ∈ q.rows M, P row) : ∀ row ∈ (choice p ps).rows M, P row := by
  induction ps generalizing p with
  | nil => exact h p List.mem_cons_self
  | cons q ps ih =>
      rw [List.forall_mem_cons] at h
      rintro row (hrow | hrow)
      · exact h.1 row hrow
      · exact ih h.2 row hrow

end

theorem forall_mem_of_mem_kstar {L : Language α} {P : α → Prop} {row : List α}
    (h : ∀ piece ∈ L, ∀ a ∈ piece, P a) (hrow : row ∈ L∗) : ∀ a ∈ row, P a := by
  obtain ⟨pieces, rfl, hpieces⟩ := Language.mem_kstar.1 hrow
  intro a ha
  obtain ⟨piece, hpiece, ha⟩ := List.mem_flatten.1 ha
  exact h piece (hpieces piece hpiece) a ha

/-- Whether a pattern holds rules in lookaheads alone. -/
def silent : Pattern R → Bool
  | .rule _ => false
  | .seq p q | .alt p q => p.silent && q.silent
  | .opt p | .star p => p.silent
  | .text _ | .one _ | .ending | .notAhead _ | .blank => true

theorem rows_of_silent {M : R → α → Prop} {p : Pattern R} (h : p.silent = true) :
    p.rows M = 1 := by
  induction p with
  | rule r => cases h
  | seq p q hp hq =>
      rw [silent, Bool.and_eq_true_iff] at h
      rw [rows, hp h.1, hq h.2, one_mul]
  | alt p q hp hq =>
      rw [silent, Bool.and_eq_true_iff] at h
      rw [rows, hp h.1, hq h.2, add_idem]
  | opt p hp => rw [rows, hp h, add_idem]
  | star p hp => rw [rows, hp h, kstar_one]
  | text | one | ending | notAhead | blank => rfl

theorem eq_nil_of_silent {M : R → α → Prop} {p : Pattern R} {row : List α} (hp : p.silent = true)
    (h : row ∈ p.rows M) : row = [] := by
  rwa [rows_of_silent hp] at h

theorem exists_append_of_forall₂ {N : α → β → Prop} {front back : List α} {row : List β}
    (h : List.Forall₂ N (front ++ back) row) :
    ∃ front' back', List.Forall₂ N front front' ∧ List.Forall₂ N back back' ∧
      row = front' ++ back' := by
  induction front generalizing row with
  | nil => exact ⟨[], row, .nil, h, rfl⟩
  | cons a front ih =>
      obtain ⟨b, row, hab, hrow, rfl⟩ := List.forall₂_cons_left_iff.1 h
      obtain ⟨front', back', hfront, hback, rfl⟩ := ih hrow
      exact ⟨b :: front', back', .cons hab hfront, hback, rfl⟩

/-- What relates, item by item, to a row of rules of a pattern is a row of the pattern itself. -/
theorem rows_of_forall₂ {M : R → α → Prop} {p : Pattern R} {rules : List R} {row : List α}
    (h : rules ∈ p.rows Eq) (hrow : List.Forall₂ M rules row) : row ∈ p.rows M := by
  induction p generalizing rules row with
  | rule r =>
      obtain ⟨_, rfl, rfl⟩ := h
      obtain ⟨a, _, ha, hnil, rfl⟩ := List.forall₂_cons_left_iff.1 hrow
      rw [List.forall₂_nil_left_iff.1 hnil]
      exact ⟨a, ha, rfl⟩
  | seq p q hp hq =>
      obtain ⟨front, hfront, back, hback, rfl⟩ := Language.mem_mul.1 h
      obtain ⟨front', back', hfront', hback', rfl⟩ := exists_append_of_forall₂ hrow
      exact Language.append_mem_mul (hp hfront hfront') (hq hback hback')
  | alt p q hp hq =>
      rcases h with h | h
      · exact .inl (hp h hrow)
      · exact .inr (hq h hrow)
  | opt p hp =>
      rcases h with h | rfl
      · exact .inl (hp h hrow)
      · exact .inr (List.forall₂_nil_left_iff.1 hrow)
  | star p hp =>
      obtain ⟨pieces, rfl, hpieces⟩ := Language.mem_kstar.1 h
      clear h
      induction pieces generalizing row with
      | nil =>
          rw [List.forall₂_nil_left_iff.1 hrow]
          exact Language.nil_mem_kstar _
      | cons piece pieces ih =>
          rw [List.forall_mem_cons] at hpieces
          obtain ⟨front, back, hfront, hback, rfl⟩ := exists_append_of_forall₂ hrow
          exact append_mem_kstar (hp hpieces.1 hfront) (ih hpieces.2 hback)
  | text | one | ending | notAhead | blank =>
      have hnil : rules = [] := h
      subst hnil
      exact List.forall₂_nil_left_iff.1 hrow

end Pattern

def Task.rows {α : Type} (M : R → α → Prop) : Task R → Language α
  | .once p => p.rows M
  | .more p => (p.rows M)∗

def Task.silent : Task R → Bool
  | .once p | .more p => p.silent

/-! ## Trees among others -/

/-- A tree is one of some trees, or stands somewhere under one of them. -/
inductive ParseTree.Occurs (t : ParseTree R) : List (ParseTree R) → Prop
  | here {trees : List (ParseTree R)} (h : t ∈ trees) : Occurs t trees
  | under {trees : List (ParseTree R)} {u : ParseTree R} (hu : u ∈ trees)
      (h : Occurs t u.children) : Occurs t trees

namespace ParseTree

variable {t : ParseTree R}

theorem not_occurs_nil : ¬ t.Occurs [] := by
  rintro (h | ⟨h, -⟩)
  · cases h
  · cases h

theorem occurs_append {front back : List (ParseTree R)} :
    t.Occurs (front ++ back) ↔ t.Occurs front ∨ t.Occurs back := by
  constructor
  · rintro (h | ⟨hu, h⟩)
    · exact (List.mem_append.1 h).imp .here .here
    · exact (List.mem_append.1 hu).imp (.under · h) (.under · h)
  · rintro ((h | ⟨hu, h⟩) | (h | ⟨hu, h⟩))
    · exact .here (List.mem_append_left _ h)
    · exact .under (List.mem_append_left _ hu) h
    · exact .here (List.mem_append_right _ h)
    · exact .under (List.mem_append_right _ hu) h

theorem occurs_cons {u : ParseTree R} {trees : List (ParseTree R)} :
    t.Occurs (u :: trees) ↔ t.Occurs [u] ∨ t.Occurs trees := by
  rw [← List.singleton_append, occurs_append]

theorem occurs_singleton {u : ParseTree R} : t.Occurs [u] ↔ t = u ∨ t.Occurs u.children := by
  constructor
  · rintro (h | ⟨hu, h⟩)
    · exact .inl (List.mem_singleton.1 h)
    · rw [List.mem_singleton.1 hu] at h
      exact .inr h
  · rintro (rfl | h)
    · exact .here (List.mem_singleton_self t)
    · exact .under (List.mem_singleton_self u) h

theorem occurs_iff {trees : List (ParseTree R)} :
    t.Occurs trees ↔ ∃ v ∈ trees, t.Occurs [v] := by
  constructor
  · rintro (h | ⟨hu, h⟩)
    · exact ⟨t, h, .here (List.mem_singleton_self t)⟩
    · exact ⟨_, hu, .under (List.mem_singleton_self _) h⟩
  · rintro ⟨v, hv, h⟩
    rcases occurs_singleton.1 h with rfl | h
    · exact .here hv
    · exact .under hv h

theorem Occurs.trans {u : ParseTree R} {trees : List (ParseTree R)} (ht : t.Occurs trees)
    (hu : u.Occurs t.children) : u.Occurs trees := by
  induction ht with
  | here ht => exact .under ht hu
  | under hv _ ih => exact .under hv ih

end ParseTree

theorem Spelled.of_occurs {g : Grammar R} {trees : List (ParseTree R)} {t : ParseTree R}
    (h : Spelled g trees) (ht : t.Occurs trees) :
    (g.kind t.rule ≠ .normal → t.text ∈ (g.body t.rule).language) ∧ Spelled g t.children := by
  induction h with
  | nil => exact (ParseTree.not_occurs_nil ht).elim
  | node h hchildren _ ihchildren ihtrees =>
      rcases ParseTree.occurs_cons.1 ht with ht | ht
      · rcases ParseTree.occurs_singleton.1 ht with rfl | ht
        · exact ⟨h, hchildren⟩
        · exact ihchildren ht
      · exact ihtrees ht

/-- A tree that stands among others or under them has its place between the two ends. -/
theorem Laid.of_occurs {before after : Cursor} {trees : List (ParseTree R)} {t : ParseTree R}
    (h : Laid before trees after) (ht : t.Occurs trees) :
    ∃ r start stop children front back, t = .node r start stop.pos children ∧
      before.Passes front start ∧ Laid start children stop ∧ stop.Passes back after := by
  induction ht generalizing before after with
  | here ht => exact h.of_mem ht
  | under hu _ ih =>
      obtain ⟨r, start, stop, children, front, back, rfl, hfront, hinner, hback⟩ := h.of_mem hu
      obtain ⟨r', start', stop', children', front', back', rfl, hfront', hinner', hback'⟩ :=
        ih hinner
      exact ⟨r', start', stop', children', _, _, rfl, hfront.trans hfront', hinner',
        hback'.trans hback⟩

/-- What stands in one tree ends before anything in the other begins. -/
def ParseTree.Precedes (v w : ParseTree R) : Prop :=
  ∀ t u : ParseTree R, t.Occurs [v] → u.Occurs [w] → t.span.stop ≤ u.span.start

theorem Laid.pairwise_precedes {before after : Cursor} {trees : List (ParseTree R)}
    (h : Laid before trees after) : trees.Pairwise ParseTree.Precedes := by
  induction h with
  | nil => exact .nil
  | node _ hchildren htrees _ ih =>
      refine .cons (fun w hw t u ht hu => ?_) ih
      have hmem : u.Occurs _ := (ParseTree.occurs_singleton.1 hu).elim
        (fun hsame => .here (hsame ▸ hw)) fun hunder => .under hw hunder
      obtain ⟨_, start, _, _, _, _, rfl, hstart, -, -⟩ := htrees.of_occurs hmem
      rcases ParseTree.occurs_singleton.1 ht with rfl | ht
      · exact Nat.le.intro hstart.pos.symm
      · obtain ⟨_, _, last, _, _, _, rfl, -, -, hlast⟩ := hchildren.of_occurs ht
        exact Nat.le.intro (hlast.trans hstart).pos.symm

/-! ## The first tree of a kind -/

/-- A tree is the first with a property: any other one begins behind its end. -/
structure ParseTree.IsFirst (P : ParseTree R → Prop) (trees : List (ParseTree R))
    (t : ParseTree R) : Prop where
  occurs : t.Occurs trees
  holds : P t
  first : ∀ u : ParseTree R, u.Occurs trees → P u → u = t ∨ t.span.stop ≤ u.span.start

namespace ParseTree.IsFirst

variable {P : ParseTree R → Prop} {t v : ParseTree R} {trees : List (ParseTree R)}

theorem singleton (h : P t) (hchildren : t.children = []) : IsFirst P [t] t where
  occurs := .here (List.mem_singleton_self t)
  holds := h
  first := by
    intro u hu _
    rcases occurs_singleton.1 hu with rfl | hu
    · exact .inl rfl
    · rw [hchildren] at hu
      exact (not_occurs_nil hu).elim

theorem under (h : IsFirst P v.children t) (hv : ¬ P v) : IsFirst P [v] t where
  occurs := occurs_singleton.2 (.inr h.occurs)
  holds := h.holds
  first := by
    intro u hu hPu
    rcases occurs_singleton.1 hu with rfl | hu
    · exact (hv hPu).elim
    · exact h.first u hu hPu

theorem append_left {back : List (ParseTree R)} (h : IsFirst P trees t)
    (hback : ∀ v ∈ trees, ∀ w ∈ back, v.Precedes w) : IsFirst P (trees ++ back) t where
  occurs := occurs_append.2 (.inl h.occurs)
  holds := h.holds
  first := by
    intro u hu hPu
    rcases occurs_append.1 hu with hu | hu
    · exact h.first u hu hPu
    · obtain ⟨v, hv, ht⟩ := occurs_iff.1 h.occurs
      obtain ⟨w, hw, hu⟩ := occurs_iff.1 hu
      exact .inr (hback v hv w hw t u ht hu)

theorem append_right {front : List (ParseTree R)} (h : IsFirst P trees t)
    (hfront : ∀ u : ParseTree R, u.Occurs front → ¬ P u) : IsFirst P (front ++ trees) t where
  occurs := occurs_append.2 (.inr h.occurs)
  holds := h.holds
  first := by
    intro u hu hPu
    rcases occurs_append.1 hu with hu | hu
    · exact (hfront u hu hPu).elim
    · exact h.first u hu hPu

end ParseTree.IsFirst

/-! ## Trees in the shape of their rules -/

/-- Under every tree stands a row of its rule's pattern. -/
def Shaped (g : Grammar R) (trees : List (ParseTree R)) : Prop :=
  ∀ t : ParseTree R, t.Occurs trees → t.children.map ParseTree.rule ∈ (g.body t.rule).rows Eq

/-- Nothing is recorded inside atomic rules and blanks, where rules would go unrecorded. -/
structure Grammar.Flat (g : Grammar R) : Prop where
  body : ∀ r, g.kind r = .atomic → (g.body r).silent = true
  blank : g.blank.silent = true

namespace Shaped

variable {g : Grammar R}

theorem nil : Shaped g [] := fun _ ht => (ParseTree.not_occurs_nil ht).elim

theorem append {front back : List (ParseTree R)} (h : Shaped g front) (h' : Shaped g back) :
    Shaped g (front ++ back) :=
  fun t ht => (ParseTree.occurs_append.1 ht).elim (h t) (h' t)

theorem of_occurs {trees : List (ParseTree R)} {t : ParseTree R} (h : Shaped g trees)
    (ht : t.Occurs trees) : Shaped g t.children :=
  fun u hu => h u (ht.trans hu)

theorem node {r : R} {start : Cursor} {stop : Nat} {children : List (ParseTree R)}
    (h : children.map ParseTree.rule ∈ (g.body r).rows Eq) (hchildren : Shaped g children) :
    Shaped g [.node r start stop children] := by
  intro t ht
  rcases ParseTree.occurs_singleton.1 ht with rfl | ht
  · exact h
  · exact hchildren t ht

theorem silent_inside (hg : g.Flat) {r : R} {s : Spacing} (hs : s ≠ .atomic)
    (h : (g.kind r).inside s = .atomic) : (g.body r).silent = true := by
  cases hk : g.kind r with
  | atomic => exact hg.body r hk
  | normal =>
      rw [hk] at h
      exact (hs h).elim
  | compound =>
      rw [hk] at h
      cases h

theorem around_ne_atomic {k : Kind} {s : Spacing} (hs : s ≠ .atomic) : k.around s ≠ .atomic := by
  cases k with
  | normal | atomic => exact hs
  | compound => simp [Kind.around]

/-- Matching gives a row of the pattern, and shaped trees. Where rules go unrecorded the pattern
must be silent. -/
theorem of_derives (hg : g.Flat) {task : Task R} {s : Spacing} {c after : Cursor}
    {trees : List (ParseTree R)} (h : Derives g task s c trees after)
    (hs : s = .atomic → task.silent = true) :
    trees.map ParseTree.rule ∈ task.rows Eq ∧ Shaped g trees := by
  induction h with
  | text | one | ending | notAhead | tight => exact ⟨rfl, nil⟩
  | @rule r s _ _ _ _ ih =>
      -- A rule is no silent pattern, so it stands where rules are recorded.
      have hs : s ≠ .atomic := by
        intro ha
        cases hs ha
      obtain ⟨hrow, hinner⟩ := ih (silent_inside hg hs)
      rw [treesOf, if_neg (around_ne_atomic hs)]
      exact ⟨⟨r, rfl, rfl⟩, node hrow hinner⟩
  | seq _ _ _ ihp _ ihq =>
      simp only [Task.silent, Pattern.silent, Bool.and_eq_true_iff] at hs
      obtain ⟨hrow, hshaped⟩ := ihp fun ha => (hs ha).1
      obtain ⟨hrow', hshaped'⟩ := ihq fun ha => (hs ha).2
      rw [List.map_append]
      exact ⟨Language.append_mem_mul hrow hrow', hshaped.append hshaped'⟩
  | left _ ih =>
      simp only [Task.silent, Pattern.silent, Bool.and_eq_true_iff] at hs
      exact (ih fun ha => (hs ha).1).imp_left .inl
  | right _ _ ih =>
      simp only [Task.silent, Pattern.silent, Bool.and_eq_true_iff] at hs
      exact (ih fun ha => (hs ha).2).imp_left .inr
  | opt _ ih => exact (ih hs).imp_left .inl
  | without => exact ⟨.inr rfl, nil⟩
  | star _ _ ihp ihmore | again _ _ _ _ ihp ihmore =>
      obtain ⟨hrow, hshaped⟩ := ihp hs
      obtain ⟨hrow', hshaped'⟩ := ihmore hs
      rw [List.map_append]
      exact ⟨append_mem_kstar hrow hrow', hshaped.append hshaped'⟩
  | never | enough => exact ⟨Language.nil_mem_kstar _, nil⟩
  | blank _ ih =>
      obtain ⟨hrow, hshaped⟩ := ih fun _ => hg.blank
      rw [Task.rows, Pattern.rows_of_silent hg.blank] at hrow
      exact ⟨hrow, hshaped⟩

end Shaped

/-- A matched text gives the tree of the root, and all its trees are shaped. -/
theorem shaped_of_run {g : Grammar R} (hg : g.Flat) {root : R} {input : List Char}
    {trees : List (ParseTree R)} {after : Cursor}
    (h : (g.run root input).1 = .matched trees after) :
    trees.map ParseTree.rule = [root] ∧ Shaped g trees := by
  have hfree : Spacing.free = .atomic → (Task.once (.rule root)).silent = true := by
    intro hs
    cases hs
  obtain ⟨⟨r, rfl, hrow⟩, hshaped⟩ := Shaped.of_derives hg (derives_of_run h) hfree
  exact ⟨hrow, hshaped⟩

/-! ## Trees that fill another -/

def Pattern.thin : Pattern R → Bool
  | .rule _ => true
  | .alt p q => p.thin && q.thin
  | .opt p => p.thin
  | _ => false

theorem Derives.fills {g : Grammar R} {p : Pattern R} {s : Spacing} {c after : Cursor}
    {trees : List (ParseTree R)} (h : Derives g (.once p) s c trees after) (hp : p.thin = true)
    (hs : s ≠ .atomic) :
    ∀ t ∈ trees, t.text = c.textUntil after.pos ∧ t.span = ⟨c.pos, after.pos⟩ := by
  induction p generalizing trees with
  | rule r =>
      cases h with
      | rule =>
          rw [treesOf, if_neg (Shaped.around_ne_atomic hs)]
          exact List.forall_mem_singleton.2 ⟨rfl, rfl⟩
  | alt p q hp' hq' =>
      rw [Pattern.thin, Bool.and_eq_true_iff] at hp
      cases h with
      | left h => exact hp' h hp.1
      | right _ h => exact hq' h hp.2
  | opt p hp' =>
      cases h with
      | opt h => exact hp' h hp
      | without => exact List.forall_mem_nil _
  | _ => cases hp

/-- A tree in one with a thin pattern has the text and the place of the whole. -/
def Wrapped (g : Grammar R) (trees : List (ParseTree R)) : Prop :=
  ∀ t : ParseTree R, t.Occurs trees → g.kind t.rule = .normal → (g.body t.rule).thin = true →
    ∀ u ∈ t.children, u.text = t.text ∧ u.span = t.span

theorem gathers_wrapped (g : Grammar R) : Gathers g (Wrapped g) where
  nil := fun _ ht => (ParseTree.not_occurs_nil ht).elim
  append := fun hfront hback t ht => (ParseTree.occurs_append.1 ht).elim (hfront t) (hback t)
  node := by
    intro n r s c trees after hs hbody htrees t ht hkind hthin
    rcases ParseTree.occurs_singleton.1 ht with rfl | ht
    · simp only [ParseTree.rule] at hkind
      rw [hkind] at hs hbody
      exact ((derivable g n).once hbody).fills hthin hs
    · exact htrees t ht hkind hthin

/-! ## Trees that are not empty -/

theorem Cursor.Passes.pos_lt {c after : Cursor} {chars : List Char} (h : c.Passes chars after)
    (hlength : after.rest.length < c.rest.length) : c.pos < after.pos := by
  cases chars with
  | nil =>
      rw [h.rest] at hlength
      exact (Nat.lt_irrefl _ hlength).elim
  | cons x chars =>
      have hsize := x.utf8Size_pos
      rw [h.pos, utf8Length_cons]
      omega

/-- Every rule that takes a character ends behind the place where it began. -/
def Filled (ranks : Ranks R) (trees : List (ParseTree R)) : Prop :=
  ∀ t : ParseTree R, t.Occurs trees → ranks.eats t.rule = true → t.span.start < t.span.stop

theorem gathers_filled {g : Grammar R} (k : Ranking g) : Gathers g (Filled k.toRanks) where
  nil := fun _ ht => (ParseTree.not_occurs_nil ht).elim
  append := fun hfront hback t ht => (ParseTree.occurs_append.1 ht).elim (hfront t) (hback t)
  node := by
    intro n r s c trees after _ hbody htrees t ht heats
    rcases ParseTree.occurs_singleton.1 ht with rfl | ht
    · have hderives := (derivable g n).once hbody
      obtain ⟨chars, hpass⟩ := hderives.laid.passes
      exact hpass.pos_lt ((hderives.shrinks k).2 (k.eats_body r heats))
    · exact htrees t ht heats

end Gsc.Peg
