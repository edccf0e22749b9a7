import Gsc.Proofs.Script.Definitions
import Gsc.Proofs.Script.Depth
import Gsc.Proofs.Script.Outlines

/-! # The ranges of a script are nested

Reading keeps outlines in a row: the parts of a rule lie within its range one behind the other, and
so does what the rule is read as. Rows of operators and operands become one outline as they are
grouped.
-/

namespace Gsc

open Gsc.Peg
open Gsc.Peg.Pratt (Grouping)
open Outline (Row)

variable {content : List Char}

theorem Peg.Cursor.Passes.isBoundary {front : List Char} {c : Cursor}
    (h : (Cursor.atStart content).Passes front c) : IsBoundary content c.pos :=
  ⟨front, c.rest, h.rest, by rw [h.pos]; exact Nat.zero_add _⟩

/-! ## Rows of operators and operands -/

theorem UnaryOp.outline_apply (op : UnaryOp) (span : Span) (operand : Expr) :
    (op.apply span operand).outline = .node (span.merge operand.span) [operand.outline] := by
  rw [UnaryOp.apply, Expr.outline, Expr.inner]
  rfl

theorem BinaryOp.outline_apply (op : BinaryOp) (left right : Expr) :
    (op.apply left right).outline
      = .node (left.span.merge right.span) [left.outline, right.outline] := by
  rw [BinaryOp.apply, Expr.outline, Expr.inner]
  rfl

def Suffix.inner : Suffix → List Outline
  | field _ => []
  | index value => [value.outline]
  | call _ callee args => callee.outlines ++ outlinesOfArgs args

theorem Suffix.outline_apply (suffix : Suffix) (base : Expr) (span : Span) :
    (suffix.apply base span).outline
      = .node (base.span.merge span) (base.outline :: suffix.inner) := by
  cases suffix <;> rw [apply, Expr.outline, Expr.inner] <;> rfl

/-- An element of a row as it lies in the text. A binary operator has no range of its own. -/
def Item.outlines : Item → List Outline
  | operand value => [value.outline]
  | before _ span => [.leaf span]
  | between _ => []
  | behind suffix span => [.node span suffix.inner]

/-- Grouping makes one outline of a row. -/
theorem row_of_builds {g : Grouping Item} {e : Expr} (he : Item.Builds g e) {low high : Nat}
    (h : Row content low (g.row.flatMap Item.outlines) high) :
    Row content low [e.outline] high := by
  induction he generalizing low high with
  | operand e =>
      rw [Grouping.row, List.flatMap_singleton] at h
      exact h
  | before op span _ ih =>
      rw [Grouping.row, List.flatMap_cons] at h
      obtain ⟨middle, hspan, hinner⟩ := Row.append_iff.1 h
      rw [UnaryOp.outline_apply]
      exact Row.fuse_second (hspan.append (ih hinner))
  | between op _ _ ihleft ihright =>
      rw [Grouping.row, List.flatMap_append, List.flatMap_cons] at h
      obtain ⟨middle, hleft, hright⟩ := Row.append_iff.1 h
      rw [BinaryOp.outline_apply]
      exact Row.fuse_both ((ihleft hleft).append (ihright hright))
  | behind suffix span _ ih =>
      rw [Grouping.row, List.flatMap_append, List.flatMap_singleton] at h
      obtain ⟨middle, hbase, hsuffix⟩ := Row.append_iff.1 h
      rw [Suffix.outline_apply]
      exact Row.fuse_inner ((ih hbase).append hsuffix)

theorem row_of_items {items : List Item} {e : Expr} (he : Item.Row items e) {low high : Nat}
    (h : Row content low (items.flatMap Item.outlines) high) :
    Row content low [e.outline] high := by
  obtain ⟨g, rfl, -, he⟩ := he
  exact row_of_builds he h

/-! ## Parts -/

namespace Part

def outlines : Part → List Outline
  | .mark | .thread | .assignOp _ | .incDecOp _ | .script _ => []
  | .name n => [n.outline]
  | .path p => [p.outline]
  | .text s => [s.outline]
  | .item i => i.outlines
  | .expr e => [e.outline]
  | .choice thenExpr elseExpr => [thenExpr.outline, elseExpr.outline]
  | .callee c => c.outlines
  | .args es => outlinesOfArgs es
  | .assign t _ v => [t.outline, v.outline]
  | .incDec t _ => [t.outline]
  | .stmt s => [s.outline]
  | .clause s => outlinesOfClause s
  | .condition e => outlinesOfObject e
  | .params names => names.map Located.outline
  | .included p => [p.outline]
  | .animtree n => [n.outline]
  | .function f => [f.outline]

variable {parts : List Part} {span : Span} {low high : Nat}

theorem outlines_exprs (es : List Expr) :
    (es.map expr).flatMap outlines = outlinesOfArgs es := by
  induction es with
  | nil => rfl
  | cons e es ih => rw [List.map_cons, List.flatMap_cons, ih, outlinesOfArgs]; rfl

theorem outlines_stmts (body : List Stmt) :
    (body.map stmt).flatMap outlines = outlinesOfBody body := by
  induction body with
  | nil => rfl
  | cons s body ih => rw [List.map_cons, List.flatMap_cons, ih, outlinesOfBody]; rfl

theorem outlines_names (names : List (Located String)) :
    (names.map name).flatMap outlines = names.map Located.outline := by
  induction names with
  | nil => rfl
  | cons n names ih => rw [List.map_cons, List.flatMap_cons, ih, List.map_cons]; rfl

theorem outlines_item? {part : Part} {i : Item} (h : part.item? = some i) :
    part.outlines = i.outlines := by
  unfold item? at h
  split at h
  · cases h
    rfl
  · cases h
    rw [Item.outlines, Expr.outline, Expr.inner]
    rfl
  · cases h
    rw [Item.outlines, Expr.outline, Expr.inner]
    rfl
  · cases h

theorem Items.outlines_eq {items : List Item} (h : Items parts items) :
    parts.flatMap outlines = items.flatMap Item.outlines := by
  induction h with
  | nil => rfl
  | cons hi _ ih => rw [List.flatMap_cons, List.flatMap_cons, ih, outlines_item? hi]

theorem outlines_callParts (thread : Bool) (callee : Callee) (args : List Expr) :
    (callParts thread callee args).flatMap outlines = callee.outlines ++ outlinesOfArgs args := by
  cases thread <;> simp [callParts, outlines]

theorem span_of_simple? {part : Part} {s : Stmt} (hs : part.simple? span = some s) :
    s.span = span := by
  unfold simple? at hs
  split at hs
  · cases hs
    rfl
  · cases hs
    rfl
  · cases hs
    rfl
  · cases hs

/-- What lies inside a simple statement lies where its part does. -/
theorem row_of_simple? {part : Part} {s : Stmt} (hs : part.simple? span = some s)
    (h : Row content low part.outlines high) : Row content low s.inner high := by
  unfold simple? at hs
  split at hs
  · cases hs
    rw [Stmt.inner]
    exact h
  · cases hs
    rw [Stmt.inner]
    exact h
  · cases hs
    rw [Stmt.inner]
    exact h
  · cases hs

/-- A part that is read as a simple statement takes up some characters. -/
theorem lt_of_simple? {part : Part} {s : Stmt} (hs : part.simple? span = some s)
    (h : Row content low part.outlines high) : low < high := by
  have hfirst {o : Outline} {rest : List Outline} (h : Row content low (o :: rest) high) :
      low < high := by
    obtain ⟨hlow, hnested, hrest⟩ := h
    exact Nat.lt_of_le_of_lt hlow (Nat.lt_of_lt_of_le hnested.marks.lt hrest.le)
  unfold simple? at hs
  split at hs
  · exact hfirst h
  · exact hfirst h
  · exact hfirst h
  · cases hs

theorem row_of_clause {part : Part} {s : Stmt} (hs : part.simple? span = some s)
    (hstart : IsBoundary content span.start) (hstop : IsBoundary content span.stop)
    (h : Row content span.start ([part].flatMap outlines) span.stop) :
    Row content span.start (outlinesOfClause (some s)) span.stop := by
  rw [List.flatMap_singleton] at h
  rw [outlinesOfClause, span_of_simple? hs]
  exact Row.node (Span.marks_of_boundaries (lt_of_simple? hs h) hstart hstop) (row_of_simple? hs h)

theorem outline_number? {chars : List Char} {e : Expr}
    (h : Lexeme.number? chars span = some e) :
    e.outline = .leaf span := by
  unfold Lexeme.number? at h
  split at h
  · cases h
    rw [Expr.outline, Expr.inner]
    rfl
  · dsimp only at h
    split at h
    · cases h
      rw [Expr.outline, Expr.inner]
      rfl
    · cases h

theorem outline_ofLiteral (l : Literal) : (Lexeme.ofLiteral span l).outline = .leaf span := by
  cases l <;> rw [Lexeme.ofLiteral, Expr.outline, Expr.inner] <;> rfl

/-- What a rule stands for lies within its range, if its parts do. -/
theorem row_of_standsFor {rule : Rule} {chars : List Char} {part : Part}
    (hstart : IsBoundary content span.start) (hstop : IsBoundary content span.stop)
    (heats : rule.eats = true → span.start < span.stop)
    (h : Row content span.start (parts.flatMap outlines) span.stop)
    (hs : StandsFor span chars rule parts part) :
    Row content span.start part.outlines span.stop := by
  have hnone : Row content span.start [] span.stop := h.le
  have hspan : rule.eats = true → span.Marks content := fun heats' =>
    Span.marks_of_boundaries (heats heats') hstart hstop
  cases hs with
  | ending | thread | word | included | animtree | noInit | noStep | noCondition | condition
  | assign | incDec | incDecOp | choice | binary | pointer =>
      -- The parts are taken over as they are.
      exact h
  | file | assignOp | far | named => exact hnone
  | ident | fieldName | path | string | unary | member => exact Row.node (hspan rfl) hnone
  | localized | functionRef | farFunctionRef | emptyArray =>
      rw [outlines, Item.outlines, Expr.outline, Expr.inner]
      exact Row.node (hspan rfl) hnone
  | number he =>
      rw [outlines, Item.outlines, outline_number? he]
      exact Row.node (hspan rfl) hnone
  | literal l =>
      rw [outlines, Item.outlines, outline_ofLiteral]
      exact Row.node (hspan rfl) hnone
  | function n ps place body =>
      have hblock : Row content span.start
          (n.outline :: ps.map Located.outline ++ [.node place (outlinesOfBody body)])
          span.stop := by
        simpa [outlines, Stmt.outline, Stmt.inner, Stmt.span] using h
      obtain ⟨middle, hnames, hbody⟩ := Row.append_iff.1 hblock
      exact Row.node (hspan rfl) (hnames.append hbody.unwrap)
  | params names => rwa [outlines_names] at h
  | init hs | step hs => exact row_of_clause hs hstart hstop h
  | simple hs =>
      rw [List.flatMap_singleton] at h
      rw [outlines, Stmt.outline, span_of_simple? hs]
      exact Row.node (hspan rfl) (row_of_simple? hs h)
  | expr hitems he =>
      rw [hitems.outlines_eq] at h
      exact row_of_items he h
  | ternary hitems he t e =>
      rw [List.flatMap_append, hitems.outlines_eq, List.flatMap_singleton] at h
      obtain ⟨middle, hrow, hbranches⟩ := Row.append_iff.1 h
      rw [outlines, Expr.outline, Expr.inner]
      exact Row.node (hspan rfl) ((row_of_items he hrow).append hbranches)
  | index => exact Row.node (hspan rfl) h
  | methodCall =>
      rw [outlines_callParts] at h
      exact Row.node (hspan rfl) h
  | funcCall =>
      rw [outlines_callParts] at h
      rw [outlines, Item.outlines, Expr.outline, Expr.inner, outlinesOfObject, List.nil_append]
      exact Row.node (hspan rfl) h
  | args es => rwa [outlines_exprs] at h
  | paren e =>
      rw [outlines, Item.outlines, Expr.outline, Expr.span_withSpan, Expr.inner_withSpan]
      exact Row.node (hspan rfl) (Row.unwrap h)
  | vector x y z =>
      rw [outlines, Item.outlines, Expr.outline, Expr.inner]
      exact Row.node (hspan rfl) h
  | block body =>
      rw [outlines_stmts] at h
      rw [outlines, Stmt.outline, Stmt.inner]
      exact Row.node (hspan rfl) h
  | waitTill o e names =>
      rw [List.flatMap_cons, List.flatMap_cons, List.flatMap_cons, outlines_names] at h
      rw [outlines, Stmt.outline, Stmt.inner]
      exact Row.node (hspan rfl) h
  | notify o e args =>
      rw [List.flatMap_cons, List.flatMap_cons, List.flatMap_cons, outlines_exprs] at h
      rw [outlines, Stmt.outline, Stmt.inner]
      exact Row.node (hspan rfl) h
  | ifThen | ifElse | whileLoop | forLoop | foreach | finish | giveBack | wait | waitFrame
  | breakLoop | continueLoop | empty | endOn =>
      rw [outlines, Stmt.outline, Stmt.inner]
      refine Row.node (hspan rfl) ?_
      simpa [outlines, outlinesOfClause, outlinesOfObject, Stmt.outline, Expr.outline] using h

/-- The parts of trees that lie between two places lie between the offsets of both. -/
theorem row_of_laid {before after : Cursor} {trees : List (ParseTree Rule)} {front : List Char}
    (hlaid : Laid before trees after) (hbefore : (Cursor.atStart content).Passes front before)
    (hfilled : Filled Rule.ranks trees) (hparts : List.Forall₂ Means trees parts) :
    Row content before.pos (parts.flatMap outlines) after.pos := by
  induction hlaid generalizing front parts with
  | nil hpass =>
      cases hparts
      rw [hpass.pos]
      exact Nat.le_add_right _ _
  | @node before start stop after chars rule children trees hpass hchildren htrees ih ih' =>
      obtain ⟨part, rest, htree, hrest, rfl⟩ := List.forall₂_cons_left_iff.1 hparts
      obtain ⟨hinner, hs⟩ := htree
      obtain ⟨text, htext⟩ := hchildren.passes
      have hstart := hbefore.trans hpass
      have hstop := hstart.trans htext
      have heats : rule.eats = true → start.pos < stop.pos :=
        hfilled (.node rule start stop.pos children) (.here List.mem_cons_self)
      have hchildrenFilled : Filled Rule.ranks children := fun t ht =>
        hfilled t (.under List.mem_cons_self ht)
      have htreesFilled : Filled Rule.ranks trees := fun t ht =>
        hfilled t (ParseTree.occurs_cons.2 (.inr ht))
      have hpart := row_of_standsFor hstart.isBoundary hstop.isBoundary heats
        (ih hstart hchildrenFilled hinner) hs
      rw [List.flatMap_cons]
      exact (hpart.lower (Nat.le.intro hpass.pos.symm)).append (ih' hstop htreesFilled hrest)

end Part

/-! ## Scripts -/

/-- The items of a script are among some outlines, in the same order. -/
structure Script.LiesIn (row : List Outline) (script : Script) : Prop where
  includes : (script.includes.map Located.outline).Sublist row
  animtree : ∀ n ∈ script.animtree, n.outline ∈ row
  functions : (script.functions.map Function.outline).Sublist row

namespace Part

theorem liesIn_addTo {script : Script} {row : List Outline} (hs : script.LiesIn row)
    (part : Part) : (part.addTo script).LiesIn (row ++ part.outlines) := by
  have hincludes := hs.includes.trans (List.sublist_append_left row part.outlines)
  have hfunctions := hs.functions.trans (List.sublist_append_left row part.outlines)
  have hanimtree : ∀ n ∈ script.animtree, n.outline ∈ row ++ part.outlines := fun n hn =>
    List.mem_append_left _ (hs.animtree n hn)
  cases part with
  | included p =>
      refine ⟨?_, hanimtree, hfunctions⟩
      rw [addTo, List.map_append]
      exact hs.includes.append (.refl _)
  | animtree n =>
      refine ⟨hincludes, ?_, hfunctions⟩
      rintro n ⟨⟩
      exact List.mem_append_right _ List.mem_cons_self
  | function f =>
      refine ⟨hincludes, hanimtree, ?_⟩
      rw [addTo, List.map_append]
      exact hs.functions.append (.refl _)
  | _ => exact ⟨hincludes, hanimtree, hfunctions⟩

theorem liesIn_foldl (parts : List Part) {script : Script} {row : List Outline}
    (hs : script.LiesIn row) :
    (parts.foldl addTo script).LiesIn (row ++ parts.flatMap outlines) := by
  induction parts generalizing script row with
  | nil =>
      rw [List.flatMap_nil, List.append_nil]
      exact hs
  | cons part parts ih =>
      rw [List.flatMap_cons, ← List.append_assoc]
      exact ih (liesIn_addTo hs part)

end Part

namespace Script

/-- In the script of a text, every range marks whole characters of the text, lies within the range
of what it is a part of, and ends before the next part begins. -/
theorem spans_nested {source : String} {script : Script} (h : parse source = .ok script) :
    (∀ f ∈ script.functions, f.outline.Nested source.toList) ∧
      Outline.Ordered (script.functions.map Function.outline) ∧
      (∀ p ∈ script.includes, p.span.Marks source.toList) ∧
      Outline.Ordered (script.includes.map Located.outline) ∧
      ∀ n ∈ script.animtree, n.span.Marks source.toList := by
  obtain ⟨items, parts, after, hmatch, hlaid, hparts, rfl⟩ := parseChars_eq_ok h
  have hfilled : Filled Rule.ranks items := fun t ht =>
    (gathers_filled ranking).of_run hmatch t (.under List.mem_cons_self ht)
  have hrow := Part.row_of_laid hlaid (.refl _) hfilled hparts
  have hempty : Script.empty.LiesIn [] := ⟨.slnil, nofun, .slnil⟩
  obtain ⟨hincludes, hanimtree, hfunctions⟩ := Part.liesIn_foldl parts hempty
  refine ⟨?_, hrow.ordered.sublist hfunctions, ?_, hrow.ordered.sublist hincludes, ?_⟩
  · intro f hf
    exact hrow.nested _ (hfunctions.subset (List.mem_map_of_mem hf))
  · intro p hp
    exact (hrow.nested _ (hincludes.subset (List.mem_map_of_mem hp))).marks
  · intro n hn
    exact (hrow.nested _ (hanimtree n hn)).marks

/-- A loop with a clause, around operators before, between and behind operands. -/
def nestedForms : String := "f(p) // é\r\n\x7b for (p = 1 ;;) wait -p.e + 1; \x7d"

theorem spans_nestedForms :
    ∃ script, parse nestedForms = .ok script ∧ script.functions.length = 1 ∧
      (∀ f ∈ script.functions, f.outline.Nested nestedForms.toList) ∧
      Outline.Ordered (script.functions.map Function.outline) ∧
      (∀ p ∈ script.includes, p.span.Marks nestedForms.toList) ∧
      Outline.Ordered (script.includes.map Located.outline) ∧
      ∀ n ∈ script.animtree, n.span.Marks nestedForms.toList := by
  obtain ⟨script, hparse, hlength⟩ : ∃ script, parse nestedForms = .ok script ∧
      (script.functions.length == 1) = true := exists_ok_of_any (by decide +kernel)
  exact ⟨script, hparse, eq_of_beq hlength, spans_nested hparse⟩

end Script

end Gsc
