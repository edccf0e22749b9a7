import Gsc.Proofs.Except
import Gsc.Proofs.Peg.Matching
import Gsc.Proofs.Peg.Places
import Gsc.Proofs.Source.Positions
import Gsc.Script.Parse
import Gsc.Source.Diagnostic

/-! # Where syntax errors are reported

A syntax error carries a line and a column besides the offset it points at. Both ways of counting
lines give that position, and the offset is never the one within a line end of two characters.
-/

namespace Gsc

open Gsc.Peg

/-! ## The grammar of scripts -/

namespace Script

open Rule

theorem quiet_of_atomic (r : Rule) (h : r.kind = .atomic) : r.body.quiet grammar = true := by
  cases r with
  | word w => cases w <;> rfl
  | literal l => cases l <;> rfl
  | unary op => cases op <;> rfl
  | binary op => cases op <;> rfl
  | keyword | ident | fieldName | path | number | string | assignOp | incDecOp => rfl
  | _ => cases h

theorem crisp_path : Crisp grammar (.rule path) := crisp_rule rfl rfl

theorem tokens_rule {r : Rule} (h : r.kind = .atomic) : (Pattern.rule r).Tokens grammar :=
  fun hk => nomatch h.symm.trans hk

theorem tokens_of_compound (r : Rule) (h : r.kind = .compound) : r.body.Tokens grammar := by
  cases r with
  | localized => exact ⟨trivial, tokens_rule rfl, crisp_of_avoids rfl⟩
  | farCallee =>
      exact ⟨tokens_rule rfl, ⟨trivial, tokens_rule rfl, crisp_of_avoids rfl⟩, crisp_path⟩
  | funcRef =>
      exact ⟨tokens_rule rfl, ⟨trivial, tokens_rule rfl, crisp_of_avoids rfl⟩, crisp_path.opt⟩
  | _ => cases h

/-- The place has anything but a line feed ahead. -/
def OffLineFeed (c : Cursor) : Prop := c.rest.head? ≠ some '\n'

/-- Where no blank stands, no line feed does. -/
theorem offLineFeed_of_whitespace {n : Nat} {c : Cursor}
    (h : outcome grammar n whitespace .atomic c = .failed) : OffLineFeed c := by
  obtain ⟨pos, rest⟩ := c
  intro hhead
  obtain ⟨rest, rfl⟩ : ∃ back, rest = '\n' :: back := List.head?_eq_some_iff.1 hhead
  have hfeed : Yields grammar .atomic whitespace ⟨pos, '\n' :: rest⟩
      (.matched [] ⟨pos + 1, rest⟩) :=
    .alt_right .text (.alt_right .text (.alt_right .text .text))
  have hsame := hfeed.eq_of_outcome (n := n) (by simp [h])
  rw [h] at hsame
  cases hsame

theorem offLineFeed_of_blanks {n : Nat} {c after : Cursor} {trees : List (ParseTree Rule)}
    (h : outcome grammar n blanks .atomic c = .matched trees after) : OffLineFeed after := by
  have hspaces : ∀ {c trees after},
      Derives grammar (.once (.star whitespace)) .atomic c trees after → OffLineFeed after := by
    intro c trees after h
    obtain ⟨m, hfail⟩ := h.misses_of_star (by decide)
    exact offLineFeed_of_whitespace hfail
  obtain ⟨front, middle, back, hfirst, hsecond⟩ :=
    ((derivable grammar n).once h).parts_of_seq (by decide)
  refine hsecond.star_ends ?_ (hspaces hfirst)
  intro c trees after h
  obtain ⟨front, middle, back, -, hlast⟩ := h.parts_of_seq (by decide)
  exact hspaces hlast

theorem tidy : grammar.Tidy where
  atomic := quiet_of_atomic
  compound := tokens_of_compound
  blank := rfl
  stops := offLineFeed_of_blanks

/-! ## Errors -/

theorem mapError_ne_mismatch (x : Reading Script) (detail : String) (position : Position)
    (span : Span) :
    x.mapError ParseError.unreadable ≠ .error (.mismatch detail position span) := by
  cases x <;> nofun

theorem ofAttempts_of_parseChars {input : List Char} {detail : String} {position : Position}
    {span : Span} (h : parseChars input = .error (.mismatch detail position span)) :
    ParseError.ofAttempts input (grammar.run .file input).2 = .mismatch detail position span := by
  unfold parseChars at h
  split at h
  · exact (mapError_ne_mismatch _ _ _ _ h).elim
  · rename_i hrun
    rw [hrun]
    exact Except.error.inj h
  · rename_i hrun
    rw [hrun]
    exact Except.error.inj h

/-- A syntax error points at a whole character or at the end of the text, behind some text that
does not end within a line end. The position it carries is the one behind that text, in which both
kinds of line end count as one, and the one that is shown for the offset it points at. -/
theorem mismatch_position {source detail : String} {position : Position} {span : Span}
    (h : parse source = .error (.mismatch detail position span)) (name : String) :
    position = (⟨name, source.toList⟩ : Source).position span.start ∧
      span.start ≤ utf8Length source.toList ∧
      ∃ front back, source.toList = front ++ back ∧ span.start = utf8Length front ∧
        ¬ PartsLineEnd front back ∧ position.Behind front := by
  have hattempts := ofAttempts_of_parseChars h
  obtain ⟨c, ⟨front, hpass, hparts⟩, hpos⟩ := proper_of_run tidy .file source.toList
  rw [ParseError.ofAttempts, ParseError.mismatch.injEq, ← hpos] at hattempts
  obtain ⟨-, rfl, rfl⟩ := hattempts
  have hcontent : source.toList = front ++ c.rest := hpass.rest
  have hstart : c.pos = utf8Length front := by
    rw [hpass.pos]
    exact Nat.zero_add _
  have hfront : Text.charsUntil c.pos 0 source.toList = front := hpass.textUntil_eq
  refine ⟨?_, ?_, front, c.rest, hcontent, hstart, hparts, ?_⟩
  · rw [Source.position, Position.ofOffsetCrLf, Position.ofOffset, Position.behindCrLf_eq_foldl,
      Position.walk_eq_foldl]
  · rw [hcontent, hstart, utf8Length_append]
    exact Nat.le_add_right _ _
  · rw [Position.ofOffsetCrLf, Position.behindCrLf_eq_foldl, hfront]
    exact Position.behind_foldl_step front

/-- A name is missing in front of a line end. -/
def unfinishedCall : String := "// é\r\nf()\r\n\x7ba::\r\n"

theorem unfinishedCall_position :
    parse unfinishedCall = .error (.mismatch "expected ident" ⟨3, 5⟩ ⟨16, 17⟩) ∧
      ⟨3, 5⟩ = (⟨"call.gsc", unfinishedCall.toList⟩ : Source).position 16 ∧
      16 ≤ utf8Length unfinishedCall.toList ∧
      ∃ front back, unfinishedCall.toList = front ++ back ∧ 16 = utf8Length front ∧
        ¬ PartsLineEnd front back ∧ Position.Behind ⟨3, 5⟩ front := by
  have h : parse unfinishedCall = .error (.mismatch "expected ident" ⟨3, 5⟩ ⟨16, 17⟩) :=
    eq_error_of_errorOf? (by decide +kernel)
  exact ⟨h, mismatch_position h "call.gsc"⟩

end Script

end Gsc
