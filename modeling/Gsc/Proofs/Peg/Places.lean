import Gsc.Proofs.Peg.Spelling

/-! # Where rules are tried

The place that a failed match reports is one where a rule was tried and recorded. Such a rule is
tried at the start of the text, behind blanks, or inside a compound rule behind a token. If blanks
take line feeds and tokens do not end in a carriage return, no such place lies between a carriage
return and the line feed behind it.
-/

namespace Gsc.Peg

variable {R : Type}

/-! ## Places -/

/-- A text ends in a carriage return and the next one begins with a line feed. -/
def PartsLineEnd (front back : List Char) : Prop :=
  front.getLast? = some '\r' ∧ back.head? = some '\n'

/-- A place of a text that does not lie within a line end. -/
def Cursor.Proper (input : List Char) (c : Cursor) : Prop :=
  ∃ front, (Cursor.atStart input).Passes front c ∧ ¬ PartsLineEnd front c.rest

theorem Cursor.proper_atStart (input : List Char) : (Cursor.atStart input).Proper input :=
  ⟨[], .refl _, fun h => nomatch h.1⟩

/-- Behind a proper place, a place behind a text that does not end in a carriage return is proper
too. -/
theorem Cursor.Proper.of_getLast {input chars : List Char} {c after : Cursor} (h : c.Proper input)
    (hpass : c.Passes chars after) (hlast : chars.getLast? ≠ some '\r') :
    after.Proper input := by
  obtain ⟨front, hfront, hparts⟩ := h
  refine ⟨front ++ chars, hfront.trans hpass, ?_⟩
  rintro ⟨hcr, hlf⟩
  rw [List.getLast?_append] at hcr
  cases hc : chars.getLast? with
  | some x =>
      rw [hc] at hcr hlast
      exact hlast hcr
  | none =>
      rw [hc] at hcr
      apply hparts
      rw [hpass.rest, List.getLast?_eq_none_iff.1 hc]
      exact ⟨hcr, hlf⟩

/-! ## Texts of tokens -/

/-- Whether no text of the pattern holds a character. Rules are left open. -/
def Pattern.avoids (x : Char) : Pattern R → Bool
  | .text chars => !chars.contains x
  | .one chars => !chars.holds x
  | .rule _ => false
  | .seq p q | .alt p q => p.avoids x && q.avoids x
  | .opt p | .star p => p.avoids x
  | .ending | .notAhead _ | .blank => true

theorem Pattern.not_mem_of_avoids {x : Char} {p : Pattern R} (h : p.avoids x = true)
    {chars : List Char} (hchars : chars ∈ p.language) : x ∉ chars := by
  induction p generalizing chars with
  | text word =>
      obtain rfl : chars = word := hchars
      simpa [avoids] using h
  | one word =>
      obtain ⟨c, hc, rfl⟩ := hchars
      intro hx
      rw [List.mem_singleton.1 hx] at h
      simp [avoids, hc] at h
  | rule r => cases h
  | seq p q hp hq =>
      rw [avoids, Bool.and_eq_true_iff] at h
      obtain ⟨front, hfront, back, hback, rfl⟩ := Language.mem_mul.1 hchars
      rw [List.mem_append, not_or]
      exact ⟨hp h.1 hfront, hq h.2 hback⟩
  | alt p q hp hq =>
      rw [avoids, Bool.and_eq_true_iff] at h
      rcases hchars with hchars | hchars
      · exact hp h.1 hchars
      · exact hq h.2 hchars
  | opt p hp =>
      rcases hchars with hchars | rfl
      · exact hp h hchars
      · exact List.not_mem_nil
  | star p hp =>
      obtain ⟨pieces, rfl, hpieces⟩ := Language.mem_kstar.1 hchars
      intro hx
      obtain ⟨piece, hpiece, hx⟩ := List.mem_flatten.1 hx
      exact hp h (hpieces piece hpiece) hx
  | ending | notAhead | blank =>
      obtain rfl : chars = [] := hchars
      exact List.not_mem_nil

/-- What the pattern matches in a compound rule does not end in a carriage return. -/
def Crisp (g : Grammar R) (p : Pattern R) : Prop :=
  ∀ n c trees after, outcome g n p .compound c = .matched trees after →
    ∃ chars, c.Passes chars after ∧ chars.getLast? ≠ some '\r'

theorem getLast?_ne_of_not_mem {x : Char} {chars : List Char} (h : x ∉ chars) :
    chars.getLast? ≠ some x :=
  fun hx => h (List.mem_of_getLast? hx)

theorem crisp_of_avoids {g : Grammar R} {p : Pattern R} (h : p.avoids '\r' = true) :
    Crisp g p := by
  intro n c trees after hmatch
  obtain ⟨chars, hchars, hpass⟩ := ((derivable g n).once hmatch).speaks (by decide)
  exact ⟨chars, hpass, getLast?_ne_of_not_mem (p.not_mem_of_avoids h hchars)⟩

theorem crisp_rule {g : Grammar R} {r : R} (hk : g.kind r = .atomic)
    (h : (g.body r).avoids '\r' = true) : Crisp g (.rule r) := by
  intro n c trees after hmatch
  cases (derivable g n).once hmatch with
  | rule hbody =>
      obtain ⟨chars, hchars, hpass⟩ := hbody.speaks (by simp [hk, Kind.inside])
      exact ⟨chars, hpass, getLast?_ne_of_not_mem (Pattern.not_mem_of_avoids h hchars)⟩

theorem Crisp.opt {g : Grammar R} {p : Pattern R} (h : Crisp g p) : Crisp g (.opt p) := by
  intro n c trees after hmatch
  cases (derivable g n).once hmatch with
  | opt hp =>
      obtain ⟨m, hp⟩ := derives_iff_exists_outcome.1 hp
      exact h m c trees after hp
  | without => exact ⟨[], .refl _, by simp⟩

/-! ## Grammars -/

/-- Whether the pattern calls atomic rules only, so that nothing is recorded where rules go
unrecorded. -/
def Pattern.quiet (g : Grammar R) : Pattern R → Bool
  | .rule r => g.kind r = .atomic
  | .seq p q | .alt p q => p.quiet g && q.quiet g
  | .opt p | .star p | .notAhead p => p.quiet g
  | .text _ | .one _ | .ending | .blank => true

/-- The pattern of a compound rule is a row of tokens, of which all but the last end crisply. -/
def Pattern.Tokens (g : Grammar R) : Pattern R → Prop
  | .text _ | .blank => True
  | .rule r => g.kind r ≠ .normal
  | .opt p => p.Tokens g
  | .seq p q => p.Tokens g ∧ q.Tokens g ∧ Crisp g p
  | .one _ | .ending | .alt _ _ | .star _ | .notAhead _ => False

/-- Atomic rules and blanks call atomic rules only, compound rules are rows of tokens, and blanks
stop in front of anything but a line feed. -/
structure Grammar.Tidy (g : Grammar R) : Prop where
  atomic : ∀ r, g.kind r = .atomic → (g.body r).quiet g = true
  compound : ∀ r, g.kind r = .compound → (g.body r).Tokens g
  blank : g.blank.quiet g = true
  stops : ∀ {n c trees after}, outcome g n g.blank .atomic c = .matched trees after →
    after.rest.head? ≠ some '\n'

/-! ## Attempts -/

/-- Recorded attempts are at a proper place. -/
def Attempts.Proper (input : List Char) (log : Attempts R) : Prop :=
  ∃ c : Cursor, c.Proper input ∧ c.pos = log.pos

theorem Attempts.Proper.note {input : List Char} {log : Attempts R} (h : log.Proper input)
    (before : Attempts R) (r : R) {c : Cursor} {mode : Mode}
    (hc : mode.spacing ≠ .atomic → c.Proper input) :
    (log.note before r c.pos mode).Proper input := by
  unfold Attempts.note
  split
  · exact h
  · rename_i hmode
    split
    · exact h
    · split
      · exact h
      · refine ⟨c, hc hmode, ?_⟩
        cases mode.sense <;> simp only [Attempts.add, Attempts.keep] <;> repeat' split
        all_goals rfl

/-- How a pattern may be tried: where rules are recorded, at a proper place. -/
def Tried (input : List Char) (g : Grammar R) (p : Pattern R) (s : Spacing) (c : Cursor) : Prop :=
  match s with
  | .free => c.Proper input
  | .compound => c.Proper input ∧ p.Tokens g
  | .atomic => p.quiet g = true

/-- How a pattern may be repeated: any place will do where blanks come before the repetition. -/
def Resumed (input : List Char) (g : Grammar R) (p : Pattern R) (s : Spacing) (c : Cursor) :
    Prop :=
  match s with
  | .free => ∃ front, (Cursor.atStart input).Passes front c
  | .compound => False
  | .atomic => p.quiet g = true

section

variable {input : List Char} {g : Grammar R} {p q : Pattern R} {s : Spacing} {c after next : Cursor}
  {trees blanks : List (ParseTree R)} {n m : Nat}

theorem Tried.proper (h : Tried input g p s c) (hs : s ≠ .atomic) : c.Proper input := by
  cases s with
  | free => exact h
  | compound => exact h.1
  | atomic => exact (hs rfl).elim

theorem Tried.body (hg : g.Tidy) {r : R} (h : Tried input g (.rule r) s c) :
    Tried input g (g.body r) ((g.kind r).inside s) c := by
  cases hk : g.kind r with
  | atomic => exact hg.atomic r hk
  | normal =>
      cases s with
      | free => exact h
      | compound => exact (h.2 hk).elim
      | atomic => exact nomatch hk.symm.trans (of_decide_eq_true h)
  | compound =>
      cases s with
      | free => exact ⟨h, hg.compound r hk⟩
      | compound => exact ⟨h.1, hg.compound r hk⟩
      | atomic => exact nomatch hk.symm.trans (of_decide_eq_true h)

/-- Where the rule itself is recorded, it was entered at a proper place. -/
theorem Tried.proper_rule (hg : g.Tidy) {r : R} (h : Tried input g (.rule r) s c)
    (hs : (g.kind r).around s ≠ .atomic) : c.Proper input := by
  cases hk : g.kind r with
  | atomic | normal =>
      rw [hk] at hs
      exact h.proper hs
  | compound =>
      have hbody := h.body hg
      rw [hk] at hbody
      exact hbody.1

theorem Tried.first (h : Tried input g (.seq p q) s c) : Tried input g p s c := by
  cases s with
  | free => exact h
  | compound => exact ⟨h.1, h.2.1⟩
  | atomic => exact (Bool.and_eq_true_iff.1 h).1

/-- Blanks leave the matcher at a proper place. -/
theorem proper_of_blank (hg : g.Tidy) {front chars : List Char}
    (hfront : (Cursor.atStart input).Passes front c)
    (hblank : outcome g n .blank .free c = .matched blanks next) (hpass : c.Passes chars next) :
    next.Proper input := by
  cases (derivable g n).once hblank with
  | blank hblank =>
      obtain ⟨m, hblank⟩ := derives_iff_exists_outcome.1 hblank
      exact ⟨front ++ chars, hfront.trans hpass, fun hp => hg.stops hblank hp.2⟩
  | tight hs => exact (hs rfl).elim

theorem Tried.second (hg : g.Tidy) (h : Tried input g (.seq p q) s c)
    (hp : outcome g n p s c = .matched trees after) (hpass : ∃ chars, c.Passes chars after)
    (hblank : outcome g m .blank s after = .matched blanks next)
    (hpass' : ∃ chars, after.Passes chars next) : Tried input g q s next := by
  cases s with
  | free =>
      obtain ⟨front, hfront, -⟩ := h
      obtain ⟨chars, hpass⟩ := hpass
      obtain ⟨skipped, hpass'⟩ := hpass'
      exact proper_of_blank hg (hfront.trans hpass) hblank hpass'
  | compound =>
      obtain ⟨hc, -, hq, hcrisp⟩ := h
      obtain ⟨chars, hpass, hlast⟩ := hcrisp n c trees after hp
      rw [((derivable g m).once hblank).eq_self_of_blank (by decide)]
      exact ⟨hc.of_getLast hpass hlast, hq⟩
  | atomic => exact (Bool.and_eq_true_iff.1 h).2

theorem Tried.resumed (h : Tried input g (.star p) s c) (hpass : ∃ chars, c.Passes chars after) :
    Resumed input g p s after := by
  cases s with
  | free =>
      obtain ⟨front, hfront, -⟩ := h
      obtain ⟨chars, hpass⟩ := hpass
      exact ⟨front ++ chars, hfront.trans hpass⟩
  | compound => exact h.2
  | atomic => exact h

theorem Resumed.tried (hg : g.Tidy) (h : Resumed input g p s c)
    (hblank : outcome g n .blank s c = .matched blanks next)
    (hpass : ∃ chars, c.Passes chars next) : Tried input g p s next := by
  cases s with
  | free =>
      obtain ⟨front, hfront⟩ := h
      obtain ⟨chars, hpass⟩ := hpass
      exact proper_of_blank hg hfront hblank hpass
  | compound => exact h.elim
  | atomic => exact h

theorem Resumed.later (h : Resumed input g p s c) (hpass : ∃ chars, c.Passes chars after) :
    Resumed input g p s after := by
  cases s with
  | free =>
      obtain ⟨front, hfront⟩ := h
      obtain ⟨chars, hpass⟩ := hpass
      exact ⟨front ++ chars, hfront.trans hpass⟩
  | compound => exact h
  | atomic => exact h

end

/-! ## Matching -/

/-- Recorded attempts stay at proper places. -/
structure KeepsPlace (input : List Char) (g : Grammar R) (n : Nat) : Prop where
  once : ∀ {p mode c log}, Tried input g p mode.spacing c → log.Proper input →
    (eval g n p mode c log).2.Proper input
  more : ∀ {p mode done c log}, Resumed input g p mode.spacing c → log.Proper input →
    (evalMore g n p mode done c log).2.Proper input
  blank : ∀ mode c {log}, log.Proper input → (eval g n .blank mode c log).2.Proper input

section

variable {input : List Char} {g : Grammar R} {p q : Pattern R} {mode : Mode} {c : Cursor}
  {log log' : Attempts R} {n : Nat} {o : Outcome R}

theorem KeepsPlace.of_eval (ih : KeepsPlace input g n) (h : Tried input g p mode.spacing c)
    (hlog : log.Proper input) (heval : eval g n p mode c log = (o, log')) :
    log'.Proper input := by
  have := ih.once h hlog
  rwa [heval] at this

theorem keepsPlace_rule (hg : g.Tidy) (ih : KeepsPlace input g n) {r : R}
    (h : Tried input g (.rule r) mode.spacing c) (hlog : log.Proper input) :
    (eval g (n + 1) (.rule r) mode c log).2.Proper input := by
  have hbody : Tried input g (g.body r) ((g.kind r).bodyMode mode).spacing c := by
    rw [Kind.spacing_bodyMode]
    exact h.body hg
  have hplace : ((g.kind r).ruleMode mode).spacing ≠ .atomic → c.Proper input := by
    rw [Kind.spacing_ruleMode]
    exact h.proper_rule hg
  rw [eval]
  split
  · have hinner := ih.of_eval hbody hlog ‹_›
    simp only [noteMatched]
    split
    · exact hinner.note _ _ hplace
    · exact hinner
  · have hinner := ih.of_eval hbody hlog ‹_›
    simp only [noteFailed]
    split
    · exact hinner
    · exact hinner.note _ _ hplace
  · exact ih.of_eval hbody hlog ‹_›

theorem keepsPlace_seq (hg : g.Tidy) (ih : KeepsPlace input g n)
    (h : Tried input g (.seq p q) mode.spacing c) (hlog : log.Proper input) :
    (eval g (n + 1) (.seq p q) mode c log).2.Proper input := by
  have hfirst := ih.once h.first hlog
  rw [eval]
  split
  · rename_i after _ hp
    rw [hp] at hfirst
    have hskip := ih.blank mode after hfirst
    split
    · rename_i hb
      rw [hb] at hskip
      have hsecond := ih.once (h.second hg (outcome_of_eval hp) (laid_of_eval hp).passes
        (outcome_of_eval hb) (laid_of_eval hb).passes) hskip
      split
      · rename_i hq
        rw [hq] at hsecond
        exact hsecond
      · exact hsecond
    · exact hskip
  · exact hfirst

theorem keepsPlace_blank (hg : g.Tidy) (ih : KeepsPlace input g n) (mode : Mode) (c : Cursor)
    (hlog : log.Proper input) :
    (eval g (n + 1) .blank mode c log).2.Proper input := by
  rw [eval]
  split
  · exact ih.once hg.blank hlog
  · exact hlog

theorem keepsPlace_once (hg : g.Tidy) (ih : KeepsPlace input g n)
    (h : Tried input g p mode.spacing c) (hlog : log.Proper input) :
    (eval g (n + 1) p mode c log).2.Proper input := by
  cases p with
  | text chars => exact hlog
  | one chars =>
      rw [eval]
      split <;> exact hlog
  | ending => exact hlog
  | rule r => exact keepsPlace_rule hg ih h hlog
  | seq p q => exact keepsPlace_seq hg ih h hlog
  | alt p q =>
      obtain ⟨hp, hq⟩ : Tried input g p mode.spacing c ∧ Tried input g q mode.spacing c := by
        cases hs : mode.spacing <;> rw [hs] at h
        · exact ⟨h, h⟩
        · exact h.2.elim
        · exact Bool.and_eq_true_iff.1 h
      rw [eval]
      split
      · exact ih.once hq (ih.of_eval hp hlog ‹_›)
      · exact ih.once hp hlog
  | opt p =>
      have hp : Tried input g p mode.spacing c := by
        cases hs : mode.spacing <;> rw [hs] at h <;> exact h
      rw [eval]
      split
      · exact ih.of_eval hp hlog ‹_›
      · exact ih.once hp hlog
  | star p =>
      have hp : Tried input g p mode.spacing c := by
        cases hs : mode.spacing <;> rw [hs] at h
        · exact h
        · exact h.2.elim
        · exact h
      rw [eval]
      split
      · rename_i heval
        exact ih.more (h.resumed (laid_of_eval heval).passes) (ih.of_eval hp hlog heval)
      · exact ih.of_eval hp hlog ‹_›
      · exact ih.of_eval hp hlog ‹_›
  | notAhead p =>
      have hp : Tried input g p mode.spacing c := by
        cases hs : mode.spacing <;> rw [hs] at h
        · exact h
        · exact h.2.elim
        · exact h
      rw [eval]
      have hinner : (eval g n p { mode with sense := mode.sense.negate } c log).2.Proper input :=
        ih.once hp hlog
      split <;> rename_i heval <;> rw [heval] at hinner <;> exact hinner
  | blank => exact keepsPlace_blank hg ih mode c hlog

theorem keepsPlace_more (hg : g.Tidy) (ih : KeepsPlace input g n) {done : List (ParseTree R)}
    (h : Resumed input g p mode.spacing c) (hlog : log.Proper input) :
    (evalMore g (n + 1) p mode done c log).2.Proper input := by
  have hskip := ih.blank mode c hlog
  rw [evalMore]
  split
  · rename_i hb
    rw [hb] at hskip
    have hpass := (laid_of_eval hb).passes
    have hp := h.tried hg (outcome_of_eval hb) hpass
    split
    · rename_i heval
      exact ih.more ((h.later hpass).later (laid_of_eval heval).passes)
        (ih.of_eval hp hskip heval)
    · exact ih.of_eval hp hskip ‹_›
    · exact ih.of_eval hp hskip ‹_›
  · exact hskip

end

theorem keepsPlace {input : List Char} {g : Grammar R} (hg : g.Tidy) (n : Nat) :
    KeepsPlace input g n := by
  induction n with
  | zero =>
      constructor
      · intro p mode c log _ hlog
        exact hlog
      · intro p mode done c log _ hlog
        exact hlog
      · intro mode c log hlog
        exact hlog
  | succ n ih =>
      exact ⟨keepsPlace_once hg ih, keepsPlace_more hg ih,
        fun mode c => keepsPlace_blank hg ih mode c⟩

/-- The furthest place at which a rule was tried does not lie within a line end. -/
theorem proper_of_run {g : Grammar R} (hg : g.Tidy) (root : R) (input : List Char) :
    (g.run root input).2.Proper input := by
  have hstart := Cursor.proper_atStart input
  exact (keepsPlace hg _).once hstart ⟨_, hstart, rfl⟩

/-! ## Ends of matches -/

namespace Derives

variable {g : Grammar R} {p q : Pattern R} {s : Spacing} {trees : List (ParseTree R)}
  {c after : Cursor}

/-- Without blanks, the second part begins where the first one ends. -/
theorem parts_of_seq (hs : s ≠ .free) (h : Derives g (.once (.seq p q)) s c trees after) :
    ∃ front middle back, Derives g (.once p) s c front middle ∧
      Derives g (.once q) s middle back after := by
  cases h with
  | seq hp hb hq =>
      rw [hb.eq_self_of_blank hs] at hq
      exact ⟨_, _, _, hp, hq⟩

/-- Where a repetition ends, the repeated pattern fails. -/
theorem misses_of_more (hs : s ≠ .free) (h : Derives g (.more p) s c trees after) :
    Misses g s p after := by
  generalize htask : Task.more p = task at h
  induction h with
  | again _ _ _ _ _ ih => exact ih hs htask
  | enough hb hp =>
      cases htask
      rwa [hb.eq_self_of_blank hs] at hp
  | _ => cases htask

theorem misses_of_star (hs : s ≠ .free) (h : Derives g (.once (.star p)) s c trees after) :
    Misses g s p after := by
  cases h with
  | star _ hmore => exact hmore.misses_of_more hs
  | never hp => exact hp

variable {P : Cursor → Prop}
  (hp : ∀ {c trees after}, Derives g (.once p) s c trees after → P after)

include hp

/-- A repetition ends where it began or where the repeated pattern ended. -/
theorem more_ends (hc : P c) (h : Derives g (.more p) s c trees after) : P after := by
  generalize htask : Task.more p = task at h
  induction h with
  | again _ hbody _ _ _ ih =>
      cases htask
      exact ih hp (hp hbody) rfl
  | enough => exact hc
  | _ => cases htask

theorem star_ends (hc : P c) (h : Derives g (.once (.star p)) s c trees after) : P after := by
  cases h with
  | star hbody hmore => exact more_ends hp (hp hbody) hmore
  | never => exact hc

end Derives

end Gsc.Peg
