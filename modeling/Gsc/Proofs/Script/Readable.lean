import Gsc.Proofs.Script.Definitions
import Gsc.Proofs.Script.Depth

/-! # Matched texts can be read

What reads the trees of a matched text finds in them what it looks for, and gives the table of the
operators rows that it can climb. So the one error that is left is a number that is too large, and
the one reported is the first in the text.
-/

namespace Gsc

open Gsc.Peg
open Gsc.Peg.Pratt (Role)

namespace Script

/-- A result, or an error about a number. -/
def Clean {α : Type} (x : Reading α) : Prop :=
  (∃ a, x = .ok a) ∨ ∃ text span, x = .error (.error (.invalidNumber text span))

/-- The functions that read trees of a rule. -/
inductive Reader : {α : Type} → Rule → (ParseTree Rule → Reading α) → Prop
  | file : Reader .file fun t => t.children.foldlM addItem .empty
  | item {r : Rule} (h : r ∈ [.includeDirective, .animtreeDirective, .functionDef, .ending])
      (script : Script) : Reader r (addItem script)
  | function : Reader .functionDef parseFunction
  | block : Reader .block parseBlock
  | stmt {r : Rule} (h : r ∈ [.block, .ifStmt, .whileStmt, .foreachStmt, .forStmt, .returnStmt,
      .waitFrameStmt, .waitStmt, .breakStmt, .continueStmt, .emptyStmt, .waitTillStmt, .notifyStmt,
      .endOnStmt, .exprStmt]) : Reader r parseStmt
  | clause {r : Rule} (h : r ∈ [.forInit, .forStep]) : Reader r parseForClause
  | condition : Reader .forCond fun t => parseOptional id t.children
  | simple {r : Rule} (h : r ∈ [.assignExpr, .incDecExpr, .expr]) (span : Span) :
      Reader r (parseSimple span)
  | expr : Reader .expr parseExpr
  | primary {r : Rule} (h : r.role? = some .operand) : Reader r parsePrimary
  | suffix {r : Rule} (h : r.role? = some .behind) : Reader r parseSuffix
  | call {r : Rule} (h : r ∈ [.funcCall, .methodCall]) : Reader r parseCall
  | callPart {r : Rule}
      (h : r ∈ [.word .threadWord, .namedCallee, .farCallee, .pointerCallee, .callArgs])
      (parts : CallParts) : Reader r (parseCallPart parts)

section

variable {α β : Type} {t : ParseTree Rule}

theorem clean_of_gives {P : α → Prop} {x : Reading α} (h : Gives [t] P x) : Clean x := by
  obtain ⟨a, rfl, -⟩ | ⟨u, -, rfl⟩ := h (List.pairwise_singleton _ _)
  · exact .inl ⟨a, rfl⟩
  · exact .inr ⟨_, _, rfl⟩

/-- A last step that cannot fail changes nothing. -/
theorem clean_bind_iff {x : Reading α} {f : α → β} :
    Clean (x >>= fun a => .ok (f a)) ↔ Clean x := by
  cases x with
  | ok a => exact ⟨fun _ => .inl ⟨a, rfl⟩, fun _ => .inl ⟨f a, rfl⟩⟩
  | error e =>
      refine ⟨fun h => ?_, fun h => ?_⟩
      · obtain ⟨_, h⟩ | ⟨text, span, h⟩ := h
        · cases h
        · cases h
          exact .inr ⟨text, span, rfl⟩
      · obtain ⟨_, h⟩ | ⟨text, span, h⟩ := h
        · cases h
        · cases h
          exact .inr ⟨text, span, rfl⟩

theorem clean_addItem {r : Rule} (hr : t.rule = r)
    (h : r ∈ [.includeDirective, .animtreeDirective, .functionDef, .ending]) (hbuilt : Built r t)
    (script : Script) : Clean (addItem script t) := by
  simp only [List.mem_cons, List.not_mem_nil, or_false] at h
  rcases h with rfl | rfl | rfl | rfl
  · exact clean_of_gives (hbuilt script)
  · exact clean_of_gives (hbuilt script)
  · simp only [addItem, hr]
    exact clean_bind_iff.2 (clean_of_gives hbuilt)
  · simp only [addItem, hr]
    exact .inl ⟨script, rfl⟩

theorem clean_parseStmt {r : Rule} (hr : t.rule = r)
    (h : r ∈ [.block, .ifStmt, .whileStmt, .foreachStmt, .forStmt, .returnStmt, .waitFrameStmt,
      .waitStmt, .breakStmt, .continueStmt, .emptyStmt, .waitTillStmt, .notifyStmt, .endOnStmt,
      .exprStmt]) (hbuilt : Built r t) : Clean (parseStmt t) := by
  simp only [List.mem_cons, List.not_mem_nil, or_false] at h
  rcases h with rfl | rfl | rfl | rfl | rfl | rfl | rfl | rfl | rfl | rfl | rfl | rfl | rfl | rfl |
    rfl
  · rw [parseStmt]
    simp only [hr]
    exact clean_bind_iff.2 (clean_of_gives hbuilt)
  all_goals exact clean_of_gives hbuilt

theorem clean_parseSimple {r : Rule} (hr : t.rule = r)
    (h : r ∈ [.assignExpr, .incDecExpr, .expr]) (hbuilt : Built r t) (span : Span) :
    Clean (parseSimple span t) := by
  simp only [List.mem_cons, List.not_mem_nil, or_false] at h
  rcases h with rfl | rfl | rfl
  · exact clean_of_gives (hbuilt span)
  · exact clean_of_gives (hbuilt span)
  · rw [parseSimple]
    simp only [hr]
    exact clean_bind_iff.2 (clean_of_gives hbuilt)

theorem clean_parseCall {r : Rule} (hr : t.rule = r) (h : r ∈ [.funcCall, .methodCall])
    (hbuilt : Built r t) : Clean (parseCall t) := by
  simp only [List.mem_cons, List.not_mem_nil, or_false] at h
  rcases h with rfl | rfl
  · have hclean := clean_of_gives hbuilt
    rw [parsePrimary] at hclean
    simp only [hr] at hclean
    exact clean_bind_iff.1 hclean
  · have hclean := clean_of_gives hbuilt
    rw [parseSuffix] at hclean
    simp only [hr] at hclean
    exact clean_bind_iff.1 hclean

theorem clean_parseCallPart {r : Rule} (hr : t.rule = r)
    (h : r ∈ [.word .threadWord, .namedCallee, .farCallee, .pointerCallee, .callArgs])
    (hbuilt : Built r t) (parts : CallParts) : Clean (parseCallPart parts t) := by
  simp only [List.mem_cons, List.not_mem_nil, or_false] at h
  rcases h with rfl | rfl | rfl | rfl | rfl
  · rw [parseCallPart]
    simp only [hr]
    exact .inl ⟨_, rfl⟩
  all_goals exact clean_of_gives (hbuilt parts)

theorem clean_of_reader {read : ParseTree Rule → Reading α} (h : Reader t.rule read)
    (hbuilt : Built t.rule t) : Clean (read t) := by
  obtain ⟨r, hr⟩ : ∃ r, t.rule = r := ⟨_, rfl⟩
  rw [hr] at h
  have hbuilt' := hbuilt
  rw [hr] at hbuilt'
  cases h with
  | file | function | block | condition | expr => exact clean_of_gives hbuilt'
  | item h script => exact clean_addItem hr h hbuilt' script
  | stmt h => exact clean_parseStmt hr h hbuilt'
  | clause h =>
      simp only [List.mem_cons, List.not_mem_nil, or_false] at h
      rcases h with rfl | rfl
      all_goals exact clean_of_gives hbuilt'
  | simple h span => exact clean_parseSimple hr h hbuilt' span
  | primary h => exact clean_of_gives (gives_operand (hr ▸ h) hbuilt)
  | suffix h => exact clean_of_gives (gives_behind (hr ▸ h) hbuilt)
  | call h => exact clean_parseCall hr h hbuilt'
  | callPart h parts => exact clean_parseCallPart hr h hbuilt' parts

/-- The table of the operators is given a row that it can climb, and none of the steps stops. -/
theorem climbs_of_expr (ht : Sound t) (hr : t.rule = .expr)
    (hbuilt : ∀ u ∈ t.children, Built u.rule u) :
    ∃ row choice, splitChoice (·.1) (inner t) = (row, choice) ∧ row ≠ [] ∧
      (∃ roles ∈ Role.rows, row.map (·.1.rule.role?) = roles.map some) ∧
      ∃ value, Pratt.parse precedence (·.1.rule)
        (callbacks (·.1) (fun p => parsePrimary p.1) (fun p => parseSuffix p.1)) row
          = .ok value := by
  have hrow := ht.row
  rw [hr] at hrow
  obtain ⟨row, choice, hsplit, ⟨roles, hroles, hrow⟩, hinner, -⟩ := exists_splitChoice hrow
  refine ⟨row, choice, hsplit, ?_, ⟨roles, hroles, hrow⟩, ?_⟩
  · obtain ⟨g, rfl, -⟩ := exists_grouping (fun p : Inner t => p.1.rule) hroles hrow
    cases g <;> simp [Pratt.Grouping.row]
  · have hall := ht.sorted
    rw [← map_val_inner, hinner, List.map_append] at hall
    have hsorted := (List.pairwise_append.1 hall).1
    exact exists_ok_of_unsettle ((gives_row hroles hrow hbuilt hsorted).ne_panic hsorted)

end

/-! ## Parsing -/

variable {content : List Char} {trees : List (ParseTree Rule)} {after : Cursor}

theorem parseChars_of_failed (h : (grammar.run .file content).1 = .failed) :
    ∃ detail position span, parseChars content = .error (.mismatch detail position span) := by
  unfold parseChars
  rcases hrun : grammar.run .file content with ⟨outcome, log⟩
  rw [hrun] at h
  cases h
  exact ⟨_, _, _, rfl⟩

/-- A text either does not match the grammar, or it is read up to a number that is too large. Of the
trees of a match every one has under it a row of its rule's pattern, and whatever reads it gives a
result or an error about a number, never one about a tree that is missing or unexpected. An
expression gives the table of the operators a row of operands and operators, not an empty one, and
climbing does not stop the program. -/
theorem parse_agrees_with_grammar (source : String) :
    ((grammar.run .file source.toList).1 = .failed ∧
      ∃ detail position span, parse source = .error (.mismatch detail position span)) ∨
    ∃ trees after, (grammar.run .file source.toList).1 = .matched trees after ∧
      ((∃ script, parse source = .ok script) ∨ ∃ text span,
        parse source = .error (.unreadable (.error (.invalidNumber text span)))) ∧
      ∀ t : ParseTree Rule, t.Occurs trees →
        t.children.map ParseTree.rule ∈ t.rule.body.rows Eq ∧
        (∀ {α : Type} (read : ParseTree Rule → Reading α), Reader t.rule read → Clean (read t)) ∧
        (t.rule = .expr → ∃ row choice, splitChoice (·.1) (inner t) = (row, choice) ∧ row ≠ [] ∧
          (∃ roles ∈ Role.rows, row.map (·.1.rule.role?) = roles.map some) ∧
          ∃ value, Pratt.parse precedence (·.1.rule)
            (callbacks (·.1) (fun p => parsePrimary p.1) (fun p => parseSuffix p.1)) row
              = .ok value) := by
  cases hrun : (grammar.run .file source.toList).1 with
  | failed => exact .inl ⟨rfl, parseChars_of_failed hrun⟩
  | exhausted => exact (run_ne_exhausted _ hrun).elim
  | matched trees after =>
      refine .inr ⟨trees, after, rfl, ?_, fun t ht => ?_⟩
      · obtain ⟨_, script, -, -, -, hread⟩ | ⟨t, -, hread⟩ := parseChars_of_run hrun
        · exact .inl ⟨script, hread⟩
        · exact .inr ⟨_, _, hread⟩
      · have hsound := sound_of_run hrun ht
        have hbuilt : ∀ u ∈ t.children, Built u.rule u :=
          fun u hu => built_of_run hrun (ht.trans (.here hu))
        exact ⟨hsound.row, fun read hreader => clean_of_reader hreader (built_of_run hrun ht),
          fun hr => climbs_of_expr hsound hr hbuilt⟩

/-! ## The first number that is too large -/

theorem covers_of_occurs {t : ParseTree Rule} (h : Laid (.atStart content) trees after)
    (ht : t.Occurs trees) : t.span.Covers content t.text := by
  obtain ⟨r, start, stop, children, front, back, rfl, hfront, hinner, -⟩ := h.of_occurs ht
  obtain ⟨chars, hchars⟩ := hinner.passes
  rw [ParseTree.text, hchars.textUntil_eq]
  refine ⟨front, stop.rest, (hfront.trans hchars).rest, ?_⟩
  simp only [ParseTree.span, (hfront.trans hchars).pos, hfront.pos, Cursor.atStart, Nat.zero_add]

/-- A text that matches the grammar is refused for a number exactly if some number in it without a
point does not fit in 64 bits with a sign. The number reported is then the first such number of the
text, with the characters and the place it has there. Numbers with a point are always read. -/
theorem parse_reports_leftmost {source : String}
    (h : (grammar.run .file source.toList).1 = .matched trees after) :
    ((∃ text span, parse source = .error (.unreadable (.error (.invalidNumber text span)))) ↔
      ∃ t : ParseTree Rule, t.Occurs trees ∧ HoldsTooLarge t) ∧
    (∀ text span, parse source = .error (.unreadable (.error (.invalidNumber text span))) →
      ∃ t : ParseTree Rule, t.IsFirst HoldsTooLarge trees ∧ text = String.ofList t.text ∧
        span = t.span ∧ span.Covers source.toList t.text) ∧
    ∀ t : ParseTree Rule, t.Occurs trees → t.rule = .number → '.' ∈ t.text →
      ∃ value, parsePrimary t = .ok (.float t.span value) := by
  refine ⟨?_, ?_, ?_⟩
  · obtain ⟨_, script, -, -, hfit, hok⟩ | ⟨t, ht, herror⟩ := parseChars_of_run h
    · constructor
      · rintro ⟨text, span, herror⟩
        cases hok.symm.trans herror
      · rintro ⟨t, ht, htoo⟩
        exact (hfit t ht htoo).elim
    · exact ⟨fun _ => ⟨t, ht.occurs, ht.holds⟩, fun _ => ⟨_, _, herror⟩⟩
  · intro text span hreport
    obtain ⟨_, script, -, -, -, hok⟩ | ⟨t, ht, herror⟩ := parseChars_of_run h
    · cases hok.symm.trans hreport
    · cases herror.symm.trans hreport
      exact ⟨t, ht, rfl, rfl, covers_of_occurs (derives_of_run h).laid ht.occurs⟩
  · intro t _ hr hpoint
    obtain ⟨value, hvalue⟩ := number?_of_point hpoint t.span
    refine ⟨value, ?_⟩
    rw [parsePrimary]
    simp only [hr, parseNumber, hvalue]

/-- The largest number that fits, between one with a point and two that are too large. -/
def twoTooLarge : String :=
  "/*é*/f()\x7bx=.5+9223372036854775807*9223372036854775808-99999999999999999999;\x7d"

theorem twoTooLarge_leftmost :
    ∃ trees after, (grammar.run .file twoTooLarge.toList).1 = .matched trees after ∧
      parse twoTooLarge
        = .error (.unreadable (.error (.invalidNumber "9223372036854775808" ⟨35, 54⟩))) ∧
      ∃ t : ParseTree Rule, t.IsFirst HoldsTooLarge trees ∧
        "9223372036854775808" = String.ofList t.text ∧ ⟨35, 54⟩ = t.span ∧
        Span.Covers ⟨35, 54⟩ twoTooLarge.toList t.text := by
  have hreport : parse twoTooLarge
      = .error (.unreadable (.error (.invalidNumber "9223372036854775808" ⟨35, 54⟩))) :=
    eq_error_of_errorOf? (by decide +kernel)
  cases hrun : (grammar.run .file twoTooLarge.toList).1 with
  | failed =>
      obtain ⟨detail, position, span, hfail⟩ := parseChars_of_failed hrun
      cases hfail.symm.trans hreport
  | exhausted => exact (run_ne_exhausted _ hrun).elim
  | matched trees after =>
      exact ⟨trees, after, rfl, hreport, (parse_reports_leftmost hrun).2.1 _ _ hreport⟩

end Script

end Gsc
