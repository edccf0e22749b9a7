import Gsc.Proofs.Peg.Outcomes

/-! # What a pattern yields

`Yields` says what matching a pattern comes to under every deep enough bound, with one lemma for
each way a pattern can match or fail.
-/

namespace Gsc.Peg

variable {R : Type} {g : Grammar R} {s : Spacing} {p q : Pattern R} {c after middle last : Cursor}
  {trees more blanks : List (ParseTree R)} {o : Outcome R}

/-- What matching a pattern comes to under every deep enough bound. -/
def Yields (g : Grammar R) (s : Spacing) (p : Pattern R) (c : Cursor) (o : Outcome R) : Prop :=
  ∃ n, ∀ m, n ≤ m → outcome g m p s c = o

def YieldsMore (g : Grammar R) (s : Spacing) (p : Pattern R) (done : List (ParseTree R))
    (c : Cursor) (o : Outcome R) : Prop :=
  ∃ n, ∀ m, n ≤ m → outcomeMore g m p s done c = o

theorem yields_of_succ {n : Nat} (h : ∀ m, n ≤ m → outcome g (m + 1) p s c = o) :
    Yields g s p c o := by
  refine ⟨n + 1, fun m hm => ?_⟩
  obtain ⟨m, rfl⟩ := Nat.exists_eq_add_of_le' (Nat.le_of_add_left_le hm)
  exact h m (by omega)

namespace Yields

theorem of_outcome {n : Nat} (h : outcome g n p s c = o) (ho : o ≠ .exhausted) :
    Yields g s p c o :=
  ⟨n, fun _ hm => outcome_of_le h ho hm⟩

theorem eq_of_outcome (h : Yields g s p c o) {n : Nat} (hn : outcome g n p s c ≠ .exhausted) :
    outcome g n p s c = o := by
  obtain ⟨m, h⟩ := h
  rw [← h (max m n) (Nat.le_max_left ..)]
  exact (outcome_of_le rfl hn (Nat.le_max_right ..)).symm

theorem text {chars : List Char} : Yields g s (.text chars) c (.ofCursor? (c.strip? chars)) :=
  yields_of_succ (n := 0) fun _ _ => rfl

theorem one {chars : CharClass} : Yields g s (.one chars) c (.ofCursor? (chars.after? c)) :=
  yields_of_succ (n := 0) fun _ _ => rfl

theorem rule {r : R} (h : Yields g ((g.kind r).inside s) (g.body r) c (.matched trees after)) :
    Yields g s (.rule r) c (.matched (treesOf r c ((g.kind r).around s) trees after) after) := by
  obtain ⟨n, h⟩ := h
  exact yields_of_succ fun m hm => by rw [outcome, h m hm]

theorem rule_failed {r : R} (h : Yields g ((g.kind r).inside s) (g.body r) c .failed) :
    Yields g s (.rule r) c .failed := by
  obtain ⟨n, h⟩ := h
  exact yields_of_succ fun m hm => by rw [outcome, h m hm]

theorem seq (hp : Yields g s p c (.matched trees after))
    (hb : Yields g s .blank after (.matched blanks middle))
    (hq : Yields g s q middle (.matched more last)) :
    Yields g s (.seq p q) c (.matched (trees ++ more) last) := by
  obtain ⟨n₁, hp⟩ := hp
  obtain ⟨n₂, hb⟩ := hb
  obtain ⟨n₃, hq⟩ := hq
  apply yields_of_succ (n := max n₁ (max n₂ n₃))
  intro m hm
  rw [outcome, hp m (by omega)]
  simp only
  rw [hb m (by omega)]
  simp only
  rw [hq m (by omega)]

theorem seq_failed_left (hp : Yields g s p c .failed) : Yields g s (.seq p q) c .failed := by
  obtain ⟨n, hp⟩ := hp
  exact yields_of_succ fun m hm => by rw [outcome, hp m hm]

theorem seq_failed (hp : Yields g s p c (.matched trees after))
    (hb : Yields g s .blank after (.matched blanks middle)) (hq : Yields g s q middle .failed) :
    Yields g s (.seq p q) c .failed := by
  obtain ⟨n₁, hp⟩ := hp
  obtain ⟨n₂, hb⟩ := hb
  obtain ⟨n₃, hq⟩ := hq
  apply yields_of_succ (n := max n₁ (max n₂ n₃))
  intro m hm
  rw [outcome, hp m (by omega)]
  simp only
  rw [hb m (by omega)]
  simp only
  rw [hq m (by omega)]

theorem alt_left (hp : Yields g s p c (.matched trees after)) :
    Yields g s (.alt p q) c (.matched trees after) := by
  obtain ⟨n, hp⟩ := hp
  exact yields_of_succ fun m hm => by rw [outcome, hp m hm]

theorem alt_right (hp : Yields g s p c .failed) (hq : Yields g s q c o) :
    Yields g s (.alt p q) c o := by
  obtain ⟨n₁, hp⟩ := hp
  obtain ⟨n₂, hq⟩ := hq
  apply yields_of_succ (n := max n₁ n₂)
  intro m hm
  rw [outcome, hp m (by omega)]
  exact hq m (by omega)

theorem opt (hp : Yields g s p c (.matched trees after)) :
    Yields g s (.opt p) c (.matched trees after) := by
  obtain ⟨n, hp⟩ := hp
  exact yields_of_succ fun m hm => by rw [outcome, hp m hm]

theorem opt_none (hp : Yields g s p c .failed) : Yields g s (.opt p) c (.matched [] c) := by
  obtain ⟨n, hp⟩ := hp
  exact yields_of_succ fun m hm => by rw [outcome, hp m hm]

theorem star (hp : Yields g s p c (.matched trees after)) (h : YieldsMore g s p trees after o) :
    Yields g s (.star p) c o := by
  obtain ⟨n₁, hp⟩ := hp
  obtain ⟨n₂, h⟩ := h
  apply yields_of_succ (n := max n₁ n₂)
  intro m hm
  rw [outcome, hp m (by omega)]
  exact h m (by omega)

theorem star_none (hp : Yields g s p c .failed) : Yields g s (.star p) c (.matched [] c) := by
  obtain ⟨n, hp⟩ := hp
  exact yields_of_succ fun m hm => by rw [outcome, hp m hm]

theorem notAhead (hp : Yields g s p c .failed) :
    Yields g s (.notAhead p) c (.matched [] c) := by
  obtain ⟨n, hp⟩ := hp
  exact yields_of_succ fun m hm => by rw [outcome, hp m hm]

theorem notAhead_failed (hp : Yields g s p c (.matched trees after)) :
    Yields g s (.notAhead p) c .failed := by
  obtain ⟨n, hp⟩ := hp
  exact yields_of_succ fun m hm => by rw [outcome, hp m hm]

theorem blank_free (h : Yields g .atomic g.blank c o) : Yields g .free .blank c o := by
  obtain ⟨n, h⟩ := h
  exact yields_of_succ fun m hm => by rw [outcome, if_pos rfl, h m hm]

theorem blank_tight (hs : s ≠ .free) : Yields g s .blank c (.matched [] c) :=
  yields_of_succ (n := 0) fun _ _ => by rw [outcome, if_neg hs]

end Yields

namespace YieldsMore

variable {done : List (ParseTree R)}

theorem next (hb : Yields g s .blank c (.matched blanks middle))
    (hp : Yields g s p middle (.matched trees after))
    (h : YieldsMore g s p (done ++ trees) after o) : YieldsMore g s p done c o := by
  obtain ⟨n₁, hb⟩ := hb
  obtain ⟨n₂, hp⟩ := hp
  obtain ⟨n₃, h⟩ := h
  refine ⟨max n₁ (max n₂ n₃) + 1, fun m hm => ?_⟩
  obtain ⟨m, rfl⟩ := Nat.exists_eq_add_of_le' (Nat.le_of_add_left_le hm)
  rw [outcomeMore, hb m (by omega)]
  simp only
  rw [hp m (by omega)]
  exact h m (by omega)

theorem stop (hb : Yields g s .blank c (.matched blanks middle))
    (hp : Yields g s p middle .failed) : YieldsMore g s p done c (.matched done c) := by
  obtain ⟨n₁, hb⟩ := hb
  obtain ⟨n₂, hp⟩ := hp
  refine ⟨max n₁ n₂ + 1, fun m hm => ?_⟩
  obtain ⟨m, rfl⟩ := Nat.exists_eq_add_of_le' (Nat.le_of_add_left_le hm)
  rw [outcomeMore, hb m (by omega)]
  simp only
  rw [hp m (by omega)]

end YieldsMore

end Gsc.Peg
