import Gsc.Proofs.Digits
import Gsc.Proofs.Except
import Gsc.Proofs.Peg.Shapes
import Gsc.Script.Reading

/-! # Numbers that are too large

A number without a point has to fit in 64 bits with a sign. `Gives` says of what is read from some
trees that it is a result, if no number in the trees is too large, and else the error about the
first one that is. What reads trees from left to right and hands on the first error does so.
-/

namespace Gsc

open Gsc.Peg
open Computability

/-! ## Numerals -/

open Gsc.Peg.Pattern (plus)

theorem digits_of_plus {chars : List Char}
    (h : chars ∈ (plus (.one .digit) : Pattern Rule).language) :
    chars ≠ [] ∧ ∀ c ∈ chars, c.isDigit = true := by
  obtain ⟨_, ⟨c, hc, rfl⟩, rest, hrest, rfl⟩ := Language.mem_mul.1 h
  have hdigits : ∀ d ∈ rest, d.isDigit = true := by
    refine Pattern.forall_mem_of_mem_kstar ?_ hrest
    rintro _ ⟨d, hd, rfl⟩ x hx
    rwa [List.mem_singleton.1 hx]
  refine ⟨by simp, fun d hd => ?_⟩
  rcases List.mem_cons.1 hd with rfl | hd
  · exact hc
  · exact hdigits d hd

/-- A number without a point is a row of digits. -/
theorem digits_of_numeral {chars : List Char} (h : chars ∈ Rule.numeral.language)
    (hpoint : '.' ∉ chars) : chars ≠ [] ∧ ∀ c ∈ chars, c.isDigit = true := by
  have hdot : ∀ {L : Language Char} {back : List Char},
      back ∈ (Pattern.lit "." : Pattern Rule).language * L → '.' ∈ back := by
    rintro L _ ⟨_, rfl, rest, -, rfl⟩
    exact List.mem_cons_self
  rcases h with h | h
  · obtain ⟨front, hfront, back, hback | rfl, rfl⟩ := Language.mem_mul.1 h
    · exact (hpoint (List.mem_append_right _ (hdot hback))).elim
    · rw [List.append_nil]
      exact digits_of_plus hfront
  · exact (hpoint (hdot h)).elim

/-- The digits of a whole number that does not fit in 64 bits with a sign. -/
def IsTooLarge (chars : List Char) : Prop :=
  '.' ∉ chars ∧ ∃ n, Denotes chars n ∧ 9223372036854775807 < n

theorem number?_of_point {chars : List Char} (h : '.' ∈ chars) (span : Span) :
    ∃ value, Lexeme.number? chars span = some (.float span value) :=
  ⟨_, if_pos h⟩

theorem number?_of_isTooLarge {chars : List Char} (h : IsTooLarge chars) (span : Span) :
    Lexeme.number? chars span = none := by
  obtain ⟨hpoint, n, hn, hlt⟩ := h
  rw [hn.value, ← digitsValue_eq_ofDigits] at hlt
  simp [Lexeme.number?, hpoint, Nat.not_le.2 hlt]

theorem number?_eq_none_iff {chars : List Char} (h : chars ∈ Rule.numeral.language) (span : Span) :
    Lexeme.number? chars span = none ↔ IsTooLarge chars := by
  by_cases hpoint : '.' ∈ chars
  · obtain ⟨value, hvalue⟩ := number?_of_point hpoint span
    rw [hvalue]
    exact ⟨nofun, fun htoo => (htoo.1 hpoint).elim⟩
  · obtain ⟨hne, hdigits⟩ := digits_of_numeral h hpoint
    have hvalue := digitsValue_eq_ofDigits chars
    refine ⟨fun hnone => ?_, fun htoo => number?_of_isTooLarge htoo span⟩
    refine ⟨hpoint, _, ⟨hne, hdigits, hvalue⟩, Nat.lt_of_not_le fun hle => ?_⟩
    simp [Lexeme.number?, hpoint, hle] at hnone

/-! ## The first error -/

def HoldsTooLarge (t : ParseTree Rule) : Prop := t.rule = .number ∧ IsTooLarge t.text

/-- No number in these trees is too large. -/
def AllFit (trees : List (ParseTree Rule)) : Prop :=
  ∀ t : ParseTree Rule, t.Occurs trees → ¬ HoldsTooLarge t

theorem AllFit.nil : AllFit [] := fun _ ht => (ParseTree.not_occurs_nil ht).elim

theorem AllFit.append {front back : List (ParseTree Rule)} (h : AllFit front) (h' : AllFit back) :
    AllFit (front ++ back) :=
  fun t ht => (ParseTree.occurs_append.1 ht).elim (h t) (h' t)

theorem AllFit.node {t : ParseTree Rule} (h : AllFit t.children) (ht : ¬ HoldsTooLarge t) :
    AllFit [t] := by
  intro u hu
  rcases ParseTree.occurs_singleton.1 hu with rfl | hu
  · exact ht
  · exact h u hu

/-- Reading trees that lie one behind the other gives such a result if no number in them is too
large, and else reports the first one that is. -/
def Gives {α : Type} (trees : List (ParseTree Rule)) (P : α → Prop) (x : Script.Reading α) : Prop :=
  trees.Pairwise ParseTree.Precedes →
    (∃ a, x = .ok a ∧ P a ∧ AllFit trees) ∨
      ∃ t : ParseTree Rule, t.IsFirst HoldsTooLarge trees ∧
        x = .error (.error (.invalidNumber (String.ofList t.text) t.span))

namespace Gives

variable {α β : Type} {P P' : α → Prop} {Q : β → Prop} {x : Script.Reading α}
  {f : α → Script.Reading β} {t v : ParseTree Rule} {trees front back : List (ParseTree Rule)}

theorem of_allFit {a : α} (hfit : AllFit trees) (h : P a) : Gives trees P (.ok a) :=
  fun _ => .inl ⟨a, rfl, h, hfit⟩

theorem ok {a : α} (h : P a) : Gives [] P (.ok a) := .of_allFit .nil h

theorem ne_panic (h : Gives trees P x) (hsorted : trees.Pairwise ParseTree.Precedes)
    (message : String) : x ≠ .error (.panic message) := by
  rintro rfl
  obtain ⟨_, h, -⟩ | ⟨_, -, h⟩ := h hsorted
  · cases h
  · cases h

theorem mono (h : Gives trees P x) (hP : ∀ a, P a → P' a) : Gives trees P' x := by
  intro hsorted
  obtain ⟨a, hx, ha, hfit⟩ | herror := h hsorted
  · exact .inl ⟨a, hx, hP a ha, hfit⟩
  · exact .inr herror

theorem bind (hx : Gives front P x) (hf : ∀ a, P a → Gives back Q (f a)) :
    Gives (front ++ back) Q (x >>= f) := by
  intro hsorted
  obtain ⟨hfront, hback, hbetween⟩ := List.pairwise_append.1 hsorted
  obtain ⟨a, rfl, ha, hfit⟩ | ⟨t, ht, rfl⟩ := hx hfront
  · obtain ⟨b, hb, hQ, hfit'⟩ | ⟨t, ht, herror⟩ := hf a ha hback
    · exact .inl ⟨b, hb, hQ, hfit.append hfit'⟩
    · exact .inr ⟨t, ht.append_right hfit, herror⟩
  · exact .inr ⟨t, ht.append_left hbetween, rfl⟩

theorem cons (hx : Gives [v] P x) (hf : ∀ a, P a → Gives trees Q (f a)) :
    Gives (v :: trees) Q (x >>= f) :=
  hx.bind hf

theorem finish (hx : Gives trees P x) (hf : ∀ a, P a → ∃ b, f a = .ok b ∧ Q b) :
    Gives trees Q (x >>= f) := by
  have h : Gives (trees ++ []) Q (x >>= f) := hx.bind fun a ha => by
    obtain ⟨b, hb, hQ⟩ := hf a ha
    exact hb ▸ .ok hQ
  rwa [List.append_nil] at h

theorem map (hx : Gives trees P x) {g : α → β} (hg : ∀ a, P a → Q (g a)) :
    Gives trees Q (x >>= fun a => .ok (g a)) :=
  hx.finish fun a ha => ⟨g a, rfl, hg a ha⟩

theorem skip (hv : AllFit [v]) (h : Gives trees P x) : Gives (v :: trees) P x := by
  have hnothing : Gives [v] (fun _ => True) (.ok () : Script.Reading Unit) := .of_allFit hv trivial
  exact hnothing.cons fun _ _ => h

/-- A tree other than a number adds no error to those of the trees in it. -/
theorem node (h : Gives t.children P x) (hsorted : t.children.Pairwise ParseTree.Precedes)
    (ht : t.rule ≠ .number) : Gives [t] P x := by
  intro _
  have hnot : ¬ HoldsTooLarge t := fun htoo => ht htoo.1
  obtain ⟨a, hx, ha, hfit⟩ | ⟨u, hu, herror⟩ := h hsorted
  · exact .inl ⟨a, hx, ha, hfit.node hnot⟩
  · exact .inr ⟨u, hu.under hnot, herror⟩

theorem mapM {f : ParseTree Rule → Script.Reading α} {R : ParseTree Rule → α → Prop}
    (h : ∀ t ∈ trees, Gives [t] (R t) (f t)) :
    Gives trees (List.Forall₂ R trees) (trees.mapM f) := by
  induction trees with
  | nil => exact .ok .nil
  | cons t trees ih =>
      rw [List.forall_mem_cons] at h
      rw [List.mapM_cons]
      exact h.1.cons fun a ha => (ih h.2).map fun as has => .cons ha has

end Gives

end Gsc
