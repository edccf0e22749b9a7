import Gsc.Proofs.Peg.Matching
import Gsc.Proofs.Script.Bare

/-! # Reading a text by the grammar of scripts

`Reads` says how far a pattern matches a text and what it means, up to ranges. It follows the
patterns: a sequence means what its parts mean, a rule what they combine to.
-/

namespace Gsc

open Gsc.Peg

namespace Script

open Rule

variable {s : Spacing} {p q : Pattern Rule} {chars rest middle last : List Char}
  {parts more : List Part} {part : Part}

/-! ## Blanks -/

/-- A text begins with neither a blank nor a comment. -/
structure Clear (chars : List Char) : Prop where
  whitespace : Fails grammar .atomic whitespace chars
  comment : Fails grammar .atomic comment chars

/-- Whether it does so, as far as its first characters show. -/
def clear (front : List Char) : Bool :=
  refuses grammar 9 whitespace front && refuses grammar 9 comment front

theorem clear_append (front : List Char) (h : clear front = true) : Clear (front ++ rest) := by
  rw [clear, Bool.and_eq_true_iff] at h
  exact ⟨(refusal grammar front rest 9).fails nofun h.1,
    (refusal grammar front rest 9).fails nofun h.2⟩

/-- Blanks reach from one text to another that stands behind it. -/
def Gap (s : Spacing) (chars rest : List Char) : Prop :=
  ∀ pos, ∃ pos' blanks, Yields grammar s .blank ⟨pos, chars⟩ (.matched blanks ⟨pos', rest⟩)

namespace Clear

theorem noComments (h : Clear chars) (pos : Nat) :
    Yields grammar .atomic (.star (.seq Rule.comment (.star Rule.whitespace))) ⟨pos, chars⟩
      (.matched [] ⟨pos, chars⟩) :=
  .star_none (.seq_failed_left (h.comment pos))

theorem solid (h : Clear chars) : Solid grammar chars := by
  intro pos
  have hstar : Yields grammar .atomic (.star Rule.whitespace) ⟨pos, chars⟩ _ :=
    .star_none (h.whitespace pos)
  exact ⟨_, .blank_free (hstar.seq (.blank_tight nofun) (h.noComments pos))⟩

theorem gap (h : Clear chars) : Gap s chars chars :=
  fun pos => ⟨pos, Solid.blank (fun _ => h.solid) pos⟩

theorem gap_space (h : Clear chars) : Gap .free (' ' :: chars) chars := by
  intro pos
  have hspace : Takes grammar Rule.whitespace [' '] chars := .alt_left .text
  have hstar : Takes grammar (.star Rule.whitespace) [' '] chars :=
    .star hspace (.stop h.whitespace)
  exact ⟨_, _, .blank_free ((hstar pos).seq (.blank_tight nofun) (h.noComments _))⟩

end Clear

theorem gap_tight (hs : s ≠ .free) : Gap s chars chars := fun pos => ⟨pos, [], .blank_tight hs⟩

/-- Failures that the first characters of a text show. -/
theorem fails (front : List Char) (h : (clear front && refuses grammar 99 p front) = true) :
    Fails grammar s p (front ++ rest) := by
  rw [Bool.and_eq_true_iff] at h
  exact (refusal grammar front rest 99).fails (fun _ => (clear_append front h.1).solid) h.2

theorem fails_tight (front : List Char) (h : refuses grammar 99 p front = true)
    (hs : s ≠ .free := by decide) : Fails grammar s p (front ++ rest) :=
  (refusal grammar front rest 99).fails (fun hfree => absurd hfree hs) h

theorem fails_choice {ps : List (Pattern Rule)} (h : ∀ q ∈ p :: ps, Fails grammar s q chars) :
    Fails grammar s (.choice p ps) chars := by
  induction ps generalizing p with
  | nil => exact h p List.mem_cons_self
  | cons q ps ih =>
      rw [List.forall_mem_cons] at h
      exact fun pos => .alt_right (h.1 pos) (ih h.2 pos)

/-! ## Reading -/

/-- A pattern matches a text up to `rest`, and what it matched means `parts`, up to ranges. -/
def Reads (s : Spacing) (p : Pattern Rule) (chars rest : List Char) (parts : List Part) : Prop :=
  ∀ pos, ∃ pos' trees read, Yields grammar s p ⟨pos, chars⟩ (.matched trees ⟨pos', rest⟩) ∧
    List.Forall₂ Means trees read ∧ List.Forall₂ Part.Like read parts

/-- So it does behind blanks, if there are any. -/
def Next (s : Spacing) (p : Pattern Rule) (chars rest : List Char) (parts : List Part) : Prop :=
  ∃ start, Gap s chars start ∧ Reads s p start rest parts

/-- Going on to repeat a pattern matches a text up to `rest` and means `parts`. -/
def ReadsMore (s : Spacing) (p : Pattern Rule) (chars rest : List Char) (parts : List Part) :
    Prop :=
  ∀ pos done, ∃ pos' trees read,
    YieldsMore grammar s p done ⟨pos, chars⟩ (.matched (done ++ trees) ⟨pos', rest⟩) ∧
      List.Forall₂ Means trees read ∧ List.Forall₂ Part.Like read parts

theorem yields_rule {r : Rule} {c after : Cursor} {trees : List (ParseTree Rule)}
    (h : Yields grammar (r.kind.inside s) r.body c (.matched trees after))
    (hs : r.kind.around s ≠ .atomic) :
    Yields grammar s (.rule r) c (.matched [.node r c after.pos trees] after) := by
  have hrule : Yields grammar s (.rule r) c
      (.matched (treesOf r c (r.kind.around s) trees after) after) := .rule h
  rwa [treesOf, if_neg hs] at hrule

namespace Reads

theorem text (word : List Char) : Reads s (.text word) (word ++ rest) rest [] := by
  intro pos
  have hyields : Yields grammar s (.text word) ⟨pos, word ++ rest⟩ _ := .text
  rw [strip?_append] at hyields
  exact ⟨_, [], [], hyields, .nil, .nil⟩

theorem seq (hp : Reads s p chars middle parts) (hq : Next s q middle rest more) :
    Reads s (.seq p q) chars rest (parts ++ more) := by
  intro pos
  obtain ⟨start, hgap, hq⟩ := hq
  obtain ⟨pos₁, trees, read, hp, htrees, hread⟩ := hp pos
  obtain ⟨pos₂, blanks, hb⟩ := hgap pos₁
  obtain ⟨pos₃, trees', read', hq, htrees', hread'⟩ := hq pos₂
  exact ⟨pos₃, _, _, hp.seq hb hq, List.rel_append htrees htrees', List.rel_append hread hread'⟩

theorem alt_left (hp : Reads s p chars rest parts) : Reads s (.alt p q) chars rest parts := by
  intro pos
  obtain ⟨pos', trees, read, hp, hread⟩ := hp pos
  exact ⟨pos', trees, read, hp.alt_left, hread⟩

theorem alt_right (hp : Fails grammar s p chars) (hq : Reads s q chars rest parts) :
    Reads s (.alt p q) chars rest parts := by
  intro pos
  obtain ⟨pos', trees, read, hq, hread⟩ := hq pos
  exact ⟨pos', trees, read, (hp pos).alt_right hq, hread⟩

theorem choice_cons (hp : Reads s p chars rest parts) (ps : List (Pattern Rule)) :
    Reads s (.choice p ps) chars rest parts := by
  cases ps with
  | nil => exact hp
  | cons q ps => exact hp.alt_left

/-- A choice takes the first pattern that matches. -/
theorem choice {ps behind : List (Pattern Rule)} (hq : Reads s q chars rest parts)
    (before : List (Pattern Rule)) (hps : p :: ps = before ++ q :: behind)
    (hbefore : ∀ r ∈ before, Fails grammar s r chars) :
    Reads s (.choice p ps) chars rest parts := by
  induction before generalizing p ps with
  | nil =>
      obtain ⟨rfl, rfl⟩ := List.cons.inj hps
      exact hq.choice_cons ps
  | cons r before ih =>
      obtain ⟨rfl, rfl⟩ := List.cons.inj hps
      rw [List.forall_mem_cons] at hbefore
      cases before with
      | nil => exact .alt_right hbefore.1 (ih rfl hbefore.2)
      | cons => exact .alt_right hbefore.1 (ih rfl hbefore.2)

theorem opt (hp : Reads s p chars rest parts) : Reads s (.opt p) chars rest parts := by
  intro pos
  obtain ⟨pos', trees, read, hp, hread⟩ := hp pos
  exact ⟨pos', trees, read, hp.opt, hread⟩

theorem opt_none (hp : Fails grammar s p chars) : Reads s (.opt p) chars chars [] :=
  fun pos => ⟨pos, [], [], (hp pos).opt_none, .nil, .nil⟩

theorem star_none (hp : Fails grammar s p chars) : Reads s (.star p) chars chars [] :=
  fun pos => ⟨pos, [], [], (hp pos).star_none, .nil, .nil⟩

theorem star (hp : Reads s p chars middle parts) (h : ReadsMore s p middle rest more) :
    Reads s (.star p) chars rest (parts ++ more) := by
  intro pos
  obtain ⟨pos₁, trees, read, hp, htrees, hread⟩ := hp pos
  obtain ⟨pos₂, trees', read', h, htrees', hread'⟩ := h pos₁ trees
  exact ⟨pos₂, _, _, hp.star h, List.rel_append htrees htrees', List.rel_append hread hread'⟩

/-- A rule with parts means what they combine to. -/
theorem rule {r : Rule} (h : Reads (r.kind.inside s) r.body chars rest parts)
    (hc : Part.Combines r parts part) (hs : r.kind.around s ≠ .atomic) :
    Reads s (.rule r) chars rest [part] := by
  intro pos
  obtain ⟨pos', trees, read, h, htrees, hread⟩ := h pos
  obtain ⟨part', hc, hlike⟩ := hc ⟨pos, pos'⟩ (Cursor.textUntil ⟨pos, chars⟩ pos') read hread
  exact ⟨pos', _, _, yields_rule h hs, .cons (.node htrees hc) .nil, .cons hlike .nil⟩

/-- A token means what its text says. -/
theorem token {r : Rule} {word : List Char} (h : Takes grammar r.body word rest)
    (hr : r.kind = .atomic) (hs : s ≠ .atomic)
    (hc : ∀ span, ∃ part', Part.StandsFor span word r [] part' ∧ Part.Like part' part) :
    Reads s (.rule r) (word ++ rest) rest [part] := by
  intro pos
  obtain ⟨part', hc, hlike⟩ := hc ⟨pos, pos + utf8Length word⟩
  have hinside : r.kind.inside s = .atomic := by rw [hr]; rfl
  have haround : r.kind.around s ≠ .atomic := by rwa [hr]
  refine ⟨_, _, _, yields_rule (hinside ▸ h pos) haround, .cons (.node .nil ?_) .nil,
    .cons hlike .nil⟩
  rwa [ParseTree.text, Cursor.textUntil, Cursor.charsUntil_append]

theorem then_fails (hp : Reads s p chars middle parts) (hgap : Gap s middle last)
    (hq : Fails grammar s q last) : Fails grammar s (.seq p q) chars := by
  intro pos
  obtain ⟨pos₁, trees, read, hp, -⟩ := hp pos
  obtain ⟨pos₂, blanks, hb⟩ := hgap pos₁
  exact hp.seq_failed hb (hq pos₂)

end Reads

namespace ReadsMore

theorem stop (hgap : Gap s chars middle) (hp : Fails grammar s p middle) :
    ReadsMore s p chars chars [] := by
  intro pos done
  obtain ⟨pos', blanks, hb⟩ := hgap pos
  refine ⟨pos, [], [], ?_, .nil, .nil⟩
  rw [List.append_nil]
  exact .stop hb (hp pos')

theorem next (hp : Next s p chars middle parts) (h : ReadsMore s p middle rest more) :
    ReadsMore s p chars rest (parts ++ more) := by
  intro pos done
  obtain ⟨start, hgap, hp⟩ := hp
  obtain ⟨pos₁, blanks, hb⟩ := hgap pos
  obtain ⟨pos₂, trees, read, hp, htrees, hread⟩ := hp pos₁
  obtain ⟨pos₃, trees', read', h, htrees', hread'⟩ := h pos₂ (done ++ trees)
  refine ⟨pos₃, trees ++ trees', _, ?_, List.rel_append htrees htrees',
    List.rel_append hread hread'⟩
  rw [← List.append_assoc]
  exact .next hb hp h

end ReadsMore

end Script

end Gsc
