import Gsc.Proofs.Peg.Calls
import Gsc.Proofs.Peg.Yields

/-! # How a match comes about

`Derives` says what a match takes from the matches and the misses of its parts, and speaks of no
bound. The matcher finds exactly what is derived. So a property of matches is proved by an induction
over derivations, with one case for each way in which a pattern can match.
-/

namespace Gsc.Peg

variable {R : Type}

/-- Where the matcher is called for a task, the trees that a match gives and the place behind it. A
repetition that goes on gives the trees that it adds. -/
inductive Derives (g : Grammar R) :
    Task R → Spacing → Cursor → List (ParseTree R) → Cursor → Prop
  | text {chars s c after} (h : c.strip? chars = some after) :
      Derives g (.once (.text chars)) s c [] after
  | one {chars s c after} (h : chars.after? c = some after) :
      Derives g (.once (.one chars)) s c [] after
  | ending {s c} (h : c.rest = []) : Derives g (.once .ending) s c [] c
  | rule {r s c trees after}
      (h : Derives g (.once (g.body r)) ((g.kind r).inside s) c trees after) :
      Derives g (.once (.rule r)) s c (treesOf r c ((g.kind r).around s) trees after) after
  | seq {p q s c after next last trees blanks more} (hp : Derives g (.once p) s c trees after)
      (hb : Derives g (.once .blank) s after blanks next)
      (hq : Derives g (.once q) s next more last) :
      Derives g (.once (.seq p q)) s c (trees ++ more) last
  | left {p q s c trees after} (hp : Derives g (.once p) s c trees after) :
      Derives g (.once (.alt p q)) s c trees after
  | right {p q s c trees after} (hp : Misses g s p c) (hq : Derives g (.once q) s c trees after) :
      Derives g (.once (.alt p q)) s c trees after
  | opt {p s c trees after} (hp : Derives g (.once p) s c trees after) :
      Derives g (.once (.opt p)) s c trees after
  | without {p s c} (hp : Misses g s p c) : Derives g (.once (.opt p)) s c [] c
  | star {p s c trees added after last} (hp : Derives g (.once p) s c trees after)
      (hmore : Derives g (.more p) s after added last) :
      Derives g (.once (.star p)) s c (trees ++ added) last
  | never {p s c} (hp : Misses g s p c) : Derives g (.once (.star p)) s c [] c
  | notAhead {p s c} (hp : Misses g s p c) : Derives g (.once (.notAhead p)) s c [] c
  | blank {c trees after} (h : Derives g (.once g.blank) .atomic c trees after) :
      Derives g (.once .blank) .free c trees after
  | tight {s c} (hs : s ≠ .free) : Derives g (.once .blank) s c [] c
  | again {p s c next after last blanks trees added}
      (hb : Derives g (.once .blank) s c blanks next)
      (hp : Derives g (.once p) s next trees after)
      (hmore : Derives g (.more p) s after added last) :
      Derives g (.more p) s c (trees ++ added) last
  | enough {p s c next blanks} (hb : Derives g (.once .blank) s c blanks next)
      (hp : Misses g s p next) : Derives g (.more p) s c [] c

variable {g : Grammar R} {n : Nat} {p q : Pattern R} {s : Spacing} {c after : Cursor}
  {done trees : List (ParseTree R)}

/-! ## Whatever is found is derived -/

/-- Matches within a bound are derived; a repetition adds to what was matched before. -/
structure Derivable (g : Grammar R) (n : Nat) : Prop where
  once : ∀ {p s c trees after}, outcome g n p s c = .matched trees after →
    Derives g (.once p) s c trees after
  more : ∀ {p s done c trees after}, outcomeMore g n p s done c = .matched trees after →
    ∃ added, trees = done ++ added ∧ Derives g (.more p) s c added after

theorem ofCursor?_eq_matched {found : Option Cursor}
    (h : Outcome.ofCursor? found = .matched trees after) : found = some after ∧ trees = [] := by
  cases found with
  | none => cases h
  | some stop =>
      cases h
      exact ⟨rfl, rfl⟩

theorem derives_once (ih : Derivable g n) (h : outcome g (n + 1) p s c = .matched trees after) :
    Derives g (.once p) s c trees after := by
  cases p with
  | text chars =>
      obtain ⟨hc, rfl⟩ := ofCursor?_eq_matched h
      exact .text hc
  | one chars =>
      obtain ⟨hc, rfl⟩ := ofCursor?_eq_matched h
      exact .one hc
  | ending =>
      obtain ⟨hc, rfl⟩ := ofCursor?_eq_matched h
      split at hc
      · next hrest =>
          cases hc
          exact .ending (List.isEmpty_iff.1 hrest)
      · cases hc
  | rule r =>
      rw [outcome] at h
      split at h
      · next hbody =>
          cases h
          exact .rule (ih.once hbody)
      · next hno => exact (hno _ _ h).elim
  | seq p q =>
      rw [outcome] at h
      split at h
      · next hp =>
          split at h
          · next hb =>
              split at h
              · next hq =>
                  cases h
                  exact .seq (ih.once hp) (ih.once hb) (ih.once hq)
              · next hno => exact (hno _ _ h).elim
          · next hno => exact (hno _ _ h).elim
      · next hno => exact (hno _ _ h).elim
  | alt p q =>
      rw [outcome] at h
      split at h
      · next hp => exact .right ⟨n, hp⟩ (ih.once h)
      · exact .left (ih.once h)
  | opt p =>
      rw [outcome] at h
      split at h
      · next hp =>
          cases h
          exact .without ⟨n, hp⟩
      · exact .opt (ih.once h)
  | star p =>
      rw [outcome] at h
      split at h
      · next hp =>
          obtain ⟨added, rfl, hmore⟩ := ih.more h
          exact .star (ih.once hp) hmore
      · next hp =>
          cases h
          exact .never ⟨n, hp⟩
      · cases h
  | notAhead p =>
      rw [outcome] at h
      split at h
      · cases h
      · next hp =>
          cases h
          exact .notAhead ⟨n, hp⟩
      · cases h
  | blank =>
      rw [outcome] at h
      split at h
      · next hs =>
          subst hs
          exact .blank (ih.once h)
      · next hs =>
          cases h
          exact .tight hs

theorem derives_more (ih : Derivable g n)
    (h : outcomeMore g (n + 1) p s done c = .matched trees after) :
    ∃ added, trees = done ++ added ∧ Derives g (.more p) s c added after := by
  rw [outcomeMore] at h
  split at h
  · next hb =>
      split at h
      · next hp =>
          obtain ⟨added, rfl, hmore⟩ := ih.more h
          exact ⟨_, List.append_assoc .., .again (ih.once hb) (ih.once hp) hmore⟩
      · next hp =>
          cases h
          exact ⟨[], (List.append_nil _).symm, .enough (ih.once hb) ⟨n, hp⟩⟩
      · cases h
  · next hno => exact (hno _ _ h).elim

theorem derivable (g : Grammar R) (n : Nat) : Derivable g n := by
  induction n with
  | zero =>
      constructor
      · intro p s c trees after h
        cases h
      · intro p s done c trees after h
        cases h
  | succ n ih => exact ⟨derives_once ih, derives_more ih⟩

/-! ## Whatever is derived is found -/

theorem Misses.yields (h : Misses g s p c) : Yields g s p c .failed := by
  obtain ⟨n, h⟩ := h
  exact .of_outcome h (by simp)

/-- A task comes to a match under every deep enough bound. -/
def Task.Yields (g : Grammar R) (s : Spacing) (c : Cursor) (trees : List (ParseTree R))
    (after : Cursor) : Task R → Prop
  | .once p => Peg.Yields g s p c (.matched trees after)
  | .more p => ∀ done, YieldsMore g s p done c (.matched (done ++ trees) after)

theorem Derives.yields {task : Task R} (h : Derives g task s c trees after) :
    task.Yields g s c trees after := by
  induction h with
  | @text chars s c _ h =>
      have hyields : Yields g s (.text chars) c _ := .text
      rwa [h] at hyields
  | @one chars s c _ h =>
      have hyields : Yields g s (.one chars) c _ := .one
      rwa [h] at hyields
  | ending h => exact yields_of_succ (n := 0) fun _ _ => by simp [outcome, h, Outcome.ofCursor?]
  | rule _ ih => exact .rule ih
  | seq _ _ _ ihp ihb ihq => exact .seq ihp ihb ihq
  | left _ ih => exact .alt_left ih
  | right hp _ ih => exact .alt_right hp.yields ih
  | opt _ ih => exact .opt ih
  | without hp => exact .opt_none hp.yields
  | star _ _ ihp ihmore => exact .star ihp (ihmore _)
  | never hp => exact .star_none hp.yields
  | notAhead hp => exact .notAhead hp.yields
  | blank _ ih => exact .blank_free ih
  | tight hs => exact .blank_tight hs
  | again _ _ _ ihb ihp ihmore =>
      intro done
      rw [← List.append_assoc]
      exact .next ihb ihp (ihmore _)
  | enough _ hp ihb =>
      intro done
      rw [List.append_nil]
      exact .stop ihb hp.yields

/-- The matcher finds exactly what is derived. -/
theorem derives_iff_exists_outcome : Derives g (.once p) s c trees after ↔
    ∃ n, outcome g n p s c = .matched trees after := by
  constructor
  · intro h
    obtain ⟨n, hn⟩ := h.yields
    exact ⟨n, hn n (Nat.le_refl n)⟩
  · rintro ⟨n, h⟩
    exact (derivable g n).once h

theorem derives_of_run {root : R} {input : List Char}
    (h : (g.run root input).1 = .matched trees after) :
    Derives g (.once (.rule root)) .free (.atStart input) trees after := by
  rw [Grammar.run, (forgets g _).once] at h
  exact (derivable g _).once h

/-- Where no blanks are allowed, none are taken. -/
theorem Derives.eq_self_of_blank {blanks : List (ParseTree R)}
    (h : Derives g (.once .blank) s c blanks after) (hs : s ≠ .free) : after = c := by
  cases h with
  | blank => exact (hs rfl).elim
  | tight => rfl

end Gsc.Peg
