import Gsc.Proofs.Peg.Termination
import Gsc.Script.Grammar

/-! # How deep the grammar of scripts nests

The rules lie on levels. Before a character is taken a rule calls only rules of lower levels, so a
script is matched with calls nested no deeper than a constant for each of its characters.
-/

namespace Gsc

open Gsc.Peg

namespace Rule

def eats : Rule → Bool
  | ending | file | params | forInit | forCond | forStep => false
  | _ => true

/-- The level of a rule: above the levels of the rules its pattern may begin with. -/
def level : Rule → Nat
  | ident | farCallee | funcRef | ifStmt | whileStmt | foreachStmt | forStmt | returnStmt
  | waitFrameStmt | waitStmt | breakStmt | continueStmt => 2
  | namedCallee | functionDef | params => 3
  | methodCall | funcCall | file => 4
  | expr => 5
  | assignExpr | incDecExpr | forCond | waitTillStmt | notifyStmt | endOnStmt => 6
  | forInit | forStep | exprStmt => 7
  | _ => 1

/-- Within a level the patterns themselves nest less than this deep. -/
def ranks : Ranks Rule := ⟨eats, fun r => 64 * r.level⟩

end Rule

namespace Script

open Rule

theorem eats_body (r : Rule) (h : r.eats = true) : r.body.eats ranks = true := by
  cases r with
  | ending | file | params | forInit | forCond | forStep => cases h
  | word w => cases w <;> rfl
  | literal l => cases l <;> rfl
  | unary op => cases op <;> rfl
  | binary op => cases op <;> rfl
  | _ => rfl

theorem height_body (r : Rule) : r.body.height ranks 9 < 64 * r.level := by
  cases r with
  | word w => cases w <;> decide
  | literal l => cases l <;> decide
  | unary op => cases op <;> decide
  | binary op => cases op <;> decide
  | _ => decide

theorem fits_body (r : Rule) : r.body.Fits ranks 9 1024 := by
  cases r with
  | word w => cases w <;> decide
  | literal l => cases l <;> decide
  | unary op => cases op <;> decide
  | binary op => cases op <;> decide
  | _ => decide

/-- The grammar of scripts is ranked by its levels. -/
def ranking : Ranking grammar where
  toRanks := ranks
  blanks := 9
  unit := 1024
  eats_body := eats_body
  height_body := height_body
  fits_body := fits_body
  height_blank := by decide
  fits_blank := by decide

theorem run_ne_exhausted (content : List Char) : (grammar.run .file content).1 ≠ .exhausted :=
  ranking.run_ne_exhausted (by decide) (by decide) content

theorem eval_ne_exhausted (r : Rule) {c : Cursor} {n : Nat} (hn : depthFor c.rest.length ≤ n)
    (mode : Mode) (log : Attempts Rule) :
    (eval grammar n (.rule r) mode c log).1 ≠ .exhausted := by
  have hlevel : r.level ≤ 7 := by
    unfold level
    split <;> decide
  have hheight : ranking.height r = 64 * r.level := rfl
  exact ranking.eval_ne_exhausted (by omega) (by decide) hn mode log

/-! ## Whole texts -/

def start (content : List Char) : Call Rule := ⟨.once (.rule .file), .free, .atStart content⟩

theorem costs_start (content : List Char) :
    ranking.Costs (start content) (1024 * content.length + 256) :=
  .rule ranking .file .free (.atStart content)

/-- Matching ends on every text. The matcher runs out of a bound exactly if as many calls nest. But
however calls nest, there are less than 1024 of them for each character and 1024 more, a rule that
is entered again inside itself has taken a character in between, and each turn of a repetition takes
one. So any bound from there on will do, and gives the same outcome. -/
theorem matching_ends (content : List Char) :
    (∀ n, (eval grammar n (.rule .file) .initial (.atStart content) .empty).1 = .exhausted ↔
      ∃ calls, calls.length = n ∧ List.IsChain (Calls grammar) (start content :: calls)) ∧
    (∀ calls, List.IsChain (Calls grammar) (start content :: calls) →
      calls.length < 1024 * (content.length + 1) ∧
      ((start content :: calls).Pairwise fun outer inner => ∀ r, outer.task = .once (.rule r) →
        inner.task = .once (.rule r) → inner.place.rest.length < outer.place.rest.length) ∧
      ∀ call ∈ start content :: calls, ∀ first last, Turns grammar call first last →
        last.rest.length < first.rest.length) ∧
    ∀ n, 1024 * (content.length + 1) ≤ n →
      (eval grammar n (.rule .file) .initial (.atStart content) .empty).1 ≠ .exhausted ∧
        (eval grammar n (.rule .file) .initial (.atStart content) .empty).1
          = (grammar.run .file content).1 := by
  have hcosts := costs_start content
  refine ⟨fun n => ?_, fun calls hchain => ⟨?_, hcosts.pairwise_of_chain hchain, ?_⟩,
    fun n hn => ?_⟩
  · rw [(forgets grammar n).once]
    exact runsOut_iff_exists_chain n (start content)
  · have := hcosts.length_lt_of_chain hchain
    omega
  · intro call hcall first last hturns
    rcases List.mem_cons.1 hcall with rfl | hcall
    · exact hcosts.length_lt_of_turns hturns
    · obtain ⟨less, -, hless⟩ := hcosts.of_mem_chain hchain call hcall
      exact hless.length_lt_of_turns hturns
  · have hrun := run_ne_exhausted content
    have hbound : ¬ (start content).RunsOut grammar n := hcosts.not_runsOut (by omega)
    simp only [Grammar.run, (forgets grammar _).once] at hrun ⊢
    exact ⟨hbound, outcome_eq_outcome hbound hrun⟩

def unclosedComment : List Char := ['/', '*', 'é']

/-- The calls that lead from the file into the comment. -/
def callsToComment : List (Call Rule) :=
  [⟨.once (body .file), .free, ⟨0, unclosedComment⟩⟩, ⟨.once .blank, .free, ⟨0, unclosedComment⟩⟩,
    ⟨.once blanks, .atomic, ⟨0, unclosedComment⟩⟩,
    ⟨.once (.star (.seq comment (.star whitespace))), .atomic, ⟨0, unclosedComment⟩⟩,
    ⟨.once (.seq comment (.star whitespace)), .atomic, ⟨0, unclosedComment⟩⟩,
    ⟨.once comment, .atomic, ⟨0, unclosedComment⟩⟩,
    ⟨.once (.choice (.sequence (.lit "/*") [upTo "*/", .lit "*/"])
      [.sequence (.lit "/#") [upTo "#/", .lit "#/"]]), .atomic, ⟨0, unclosedComment⟩⟩,
    ⟨.once (.sequence (.lit "/*") [upTo "*/", .lit "*/"]), .atomic, ⟨0, unclosedComment⟩⟩,
    ⟨.once (.seq (upTo "*/") (.lit "*/")), .atomic, ⟨2, ['é']⟩⟩,
    ⟨.once (upTo "*/"), .atomic, ⟨2, ['é']⟩⟩]

theorem matching_ends_unclosedComment :
    List.IsChain (Calls grammar) (start unclosedComment :: callsToComment) ∧
      callsToComment.length < 1024 * (unclosedComment.length + 1) ∧
      Turns grammar ⟨.once (upTo "*/"), .atomic, ⟨2, ['é']⟩⟩ ⟨2, ['é']⟩ ⟨4, []⟩ ∧
      ([] : List Char).length < ['é'].length ∧
      (eval grammar 4096 (.rule .file) .initial (.atStart unclosedComment) .empty).1
        ≠ .exhausted := by
  have hspaces : Matches grammar .atomic (.star whitespace) ⟨0, unclosedComment⟩
      ⟨0, unclosedComment⟩ := ⟨9, [], rfl⟩
  have hopen : Matches grammar .atomic (.lit "/*") ⟨0, unclosedComment⟩ ⟨2, ['é']⟩ :=
    ⟨9, [], rfl⟩
  have hchain : List.IsChain (Calls grammar) (start unclosedComment :: callsToComment) := by
    refine .cons_cons .rule (.cons_cons (.between ⟨9, [], rfl⟩) (.cons_cons .blank ?_))
    refine .cons_cons (.second hspaces ⟨9, [], rfl⟩) (.cons_cons .star (.cons_cons .first ?_))
    refine .cons_cons (.right ⟨9, rfl⟩) (.cons_cons .left ?_)
    exact .cons_cons (.second hopen ⟨9, [], rfl⟩) (.cons_cons .first (.singleton _))
  have hturns : Turns grammar ⟨.once (upTo "*/"), .atomic, ⟨2, ['é']⟩⟩ ⟨2, ['é']⟩ ⟨4, []⟩ :=
    .first ⟨9, [], rfl⟩
  obtain ⟨-, hcalls, hbound⟩ := matching_ends unclosedComment
  obtain ⟨hlength, -, hprogress⟩ := hcalls callsToComment hchain
  exact ⟨hchain, hlength, hturns, hprogress _ (by simp [callsToComment]) _ _ hturns,
    (hbound 4096 (by decide)).1⟩

end Script

end Gsc
