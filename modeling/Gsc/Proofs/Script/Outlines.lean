import Gsc.Proofs.Peg.Layout
import Gsc.Script.Basic

/-! # Ranges inside ranges

The outline of a script keeps the ranges its parts were read from and forgets the rest. It is nested
if every range is made of whole characters of the text, lies within the range around it, and ends
before the next one at its side begins.
-/

namespace Gsc

open Gsc.Peg

/-! ## Outlines -/

/-- A place of a text between two characters, or at one of its ends. -/
def IsBoundary (content : List Char) (offset : Nat) : Prop :=
  ∃ front back, content = front ++ back ∧ offset = utf8Length front

/-- A range of some whole characters of a text. -/
structure Span.Marks (content : List Char) (span : Span) : Prop where
  lt : span.start < span.stop
  le : span.stop ≤ utf8Length content
  start : IsBoundary content span.start
  stop : IsBoundary content span.stop

theorem IsBoundary.le {content : List Char} {offset : Nat} (h : IsBoundary content offset) :
    offset ≤ utf8Length content := by
  obtain ⟨front, back, rfl, rfl⟩ := h
  rw [utf8Length_append]
  exact Nat.le_add_right _ _

theorem Span.marks_of_boundaries {content : List Char} {span : Span} (hlt : span.start < span.stop)
    (hstart : IsBoundary content span.start) (hstop : IsBoundary content span.stop) :
    span.Marks content := ⟨hlt, hstop.le, hstart, hstop⟩

/-- A range with the ranges inside it, first to last. -/
inductive Outline where
  | node (span : Span) (children : List Outline)

namespace Outline

def span : Outline → Span
  | node span _ => span

def leaf (span : Span) : Outline := node span []

def Ordered (row : List Outline) : Prop :=
  row.Pairwise fun o next => o.span.stop ≤ next.span.start

/-- All ranges mark characters of the text, and those inside another lie within it in order. -/
inductive Nested (content : List Char) : Outline → Prop
  | node {span : Span} {children : List Outline} (marks : span.Marks content)
      (within : ∀ o ∈ children, span.start ≤ o.span.start ∧ o.span.stop ≤ span.stop)
      (ordered : Ordered children) (nested : ∀ o ∈ children, Nested content o) :
      Nested content (.node span children)

theorem Nested.marks {content : List Char} {o : Outline} (h : o.Nested content) :
    o.span.Marks content := by
  cases h with
  | node marks => exact marks

/-! ## Rows -/

/-- Nested outlines between two offsets, one behind the other. -/
def Row (content : List Char) : Nat → List Outline → Nat → Prop
  | low, [], high => low ≤ high
  | low, o :: rest, high =>
    low ≤ o.span.start ∧ o.Nested content ∧ Row content o.span.stop rest high

namespace Row

variable {content : List Char} {low middle high : Nat} {row front back : List Outline}
  {o a b : Outline}

theorem le (h : Row content low row high) : low ≤ high := by
  induction row generalizing low with
  | nil => exact h
  | cons o row ih =>
      obtain ⟨hlow, ho, hrest⟩ := h
      exact Nat.le_trans hlow (Nat.le_trans (Nat.le_of_lt ho.marks.lt) (ih hrest))

theorem lower {low' : Nat} (hlow : low' ≤ low) (h : Row content low row high) :
    Row content low' row high := by
  cases row with
  | nil => exact Nat.le_trans hlow h
  | cons o row => exact ⟨Nat.le_trans hlow h.1, h.2⟩

theorem append_iff :
    Row content low (front ++ back) high ↔
      ∃ middle, Row content low front middle ∧ Row content middle back high := by
  induction front generalizing low with
  | nil =>
      constructor
      · intro h
        exact ⟨low, Nat.le_refl low, h⟩
      · rintro ⟨middle, hle, h⟩
        exact h.lower hle
  | cons o front ih =>
      constructor
      · rintro ⟨hlow, ho, hrest⟩
        obtain ⟨middle, hfront, hback⟩ := ih.1 hrest
        exact ⟨middle, ⟨hlow, ho, hfront⟩, hback⟩
      · rintro ⟨middle, ⟨hlow, ho, hfront⟩, hback⟩
        exact ⟨hlow, ho, ih.2 ⟨middle, hfront, hback⟩⟩

theorem append (hfront : Row content low front middle) (hback : Row content middle back high) :
    Row content low (front ++ back) high :=
  append_iff.2 ⟨middle, hfront, hback⟩

theorem within (h : Row content low row high) :
    ∀ o ∈ row, low ≤ o.span.start ∧ o.span.stop ≤ high := by
  induction row generalizing low with
  | nil => nofun
  | cons o row ih =>
      obtain ⟨hlow, ho, hrest⟩ := h
      intro next hnext
      rcases List.mem_cons.1 hnext with rfl | hnext
      · exact ⟨hlow, hrest.le⟩
      · have hbounds := ih hrest next hnext
        have hlt := ho.marks.lt
        exact ⟨by omega, hbounds.2⟩

theorem nested (h : Row content low row high) : ∀ o ∈ row, o.Nested content := by
  induction row generalizing low with
  | nil => nofun
  | cons o row ih =>
      obtain ⟨-, ho, hrest⟩ := h
      intro next hnext
      rcases List.mem_cons.1 hnext with rfl | hnext
      · exact ho
      · exact ih hrest next hnext

theorem ordered (h : Row content low row high) : Ordered row := by
  induction row generalizing low with
  | nil => exact .nil
  | cons o row ih =>
      obtain ⟨-, -, hrest⟩ := h
      exact .cons (fun next hnext => (hrest.within next hnext).1) (ih hrest)

theorem of_ordered (hle : low ≤ high) (hordered : Ordered row)
    (hwithin : ∀ o ∈ row, low ≤ o.span.start ∧ o.span.stop ≤ high)
    (hnested : ∀ o ∈ row, o.Nested content) : Row content low row high := by
  induction row generalizing low with
  | nil => exact hle
  | cons o row ih =>
      rw [Ordered, List.pairwise_cons] at hordered
      rw [List.forall_mem_cons] at hwithin hnested
      refine ⟨hwithin.1.1, hnested.1, ih hwithin.1.2 hordered.2 ?_ hnested.2⟩
      intro next hnext
      exact ⟨hordered.1 next hnext, (hwithin.2 next hnext).2⟩

/-- A range around a row makes one outline. -/
theorem nested_node {span : Span} (hspan : span.Marks content)
    (h : Row content span.start row span.stop) : (node span row).Nested content :=
  .node hspan h.within h.ordered h.nested

theorem node {span : Span} (hspan : span.Marks content)
    (h : Row content span.start row span.stop) :
    Row content span.start [.node span row] span.stop :=
  ⟨Nat.le_refl _, nested_node hspan h, Nat.le_refl _⟩

theorem of_nested {span : Span} (h : (Outline.node span row).Nested content) :
    Row content span.start row span.stop := by
  cases h with
  | node marks within ordered nested =>
      exact of_ordered (Nat.le_of_lt marks.lt) ordered within nested

/-- What lies inside a range lies between the same offsets. -/
theorem unwrap {span : Span} (h : Row content low [.node span row] high) :
    Row content low row high := by
  obtain ⟨hlow, ho, hhigh⟩ := h
  rw [← List.append_nil row]
  exact ((of_nested ho).lower hlow).append hhigh

/-- Two neighbours become one outline, around what lies between the ends of both. -/
theorem fuse {children : List Outline} (h : Row content low (a :: b :: row) high)
    (hchildren : Row content a.span.start children b.span.stop) :
    Row content low (.node (a.span.merge b.span) children :: row) high := by
  obtain ⟨hlow, ha, hbetween, hb, hrest⟩ := h
  have hlt := ha.marks.lt
  have hlt' := hb.marks.lt
  have hmerge : a.span.merge b.span = ⟨a.span.start, b.span.stop⟩ := by
    rw [Span.merge, Nat.min_eq_left (by omega), Nat.max_eq_right (by omega)]
  rw [hmerge]
  have hspan : (⟨a.span.start, b.span.stop⟩ : Span).Marks content :=
    Span.marks_of_boundaries (by simp only; omega) ha.marks.start hb.marks.stop
  exact ⟨hlow, nested_node hspan hchildren, hrest⟩

theorem fuse_both (h : Row content low (a :: b :: row) high) :
    Row content low (.node (a.span.merge b.span) [a, b] :: row) high := by
  have ⟨_, ha, hbetween, hb, _⟩ := h
  exact h.fuse ⟨Nat.le_refl _, ha, hbetween, hb, Nat.le_refl _⟩

theorem fuse_second (h : Row content low (a :: b :: row) high) :
    Row content low (.node (a.span.merge b.span) [b] :: row) high := by
  have ⟨_, ha, hbetween, hb, _⟩ := h
  exact h.fuse ⟨Nat.le_trans (Nat.le_of_lt ha.marks.lt) hbetween, hb, Nat.le_refl _⟩

/-- The first takes in what lies inside the second. -/
theorem fuse_inner {span : Span} {children : List Outline}
    (h : Row content low (a :: .node span children :: row) high) :
    Row content low (.node (a.span.merge span) (a :: children) :: row) high := by
  have ⟨_, ha, hbetween, hb, _⟩ := h
  exact h.fuse ⟨Nat.le_refl _, ha, (of_nested hb).lower hbetween⟩

end Row

end Outline

/-! ## Outlines of scripts -/

def Located.outline {α : Type} (value : Located α) : Outline := .leaf value.span

mutual

def Expr.inner : Expr → List Outline
  | .int .. | .float .. | .text .. | .localized .. | .undefined _ | .bool .. | .level _ | .self _
  | .game _ | .anim _ | .emptyArray _ | .ident .. | .functionRef .. => []
  | .vector _ x y z => [.node x.span x.inner, .node y.span y.inner, .node z.span z.inner]
  | .field _ base _ => [.node base.span base.inner]
  | .index _ base i => [.node base.span base.inner, .node i.span i.inner]
  | .call _ object _ callee args =>
    outlinesOfObject object ++ callee.outlines ++ outlinesOfArgs args
  | .unary _ _ operand => [.node operand.span operand.inner]
  | .binary _ left _ right => [.node left.span left.inner, .node right.span right.inner]
  | .ternary _ condition thenExpr elseExpr =>
    [.node condition.span condition.inner, .node thenExpr.span thenExpr.inner,
      .node elseExpr.span elseExpr.inner]

def Callee.outlines : Callee → List Outline
  | .named _ | .far .. => []
  | .pointer target => [.node target.span target.inner]

def outlinesOfObject : Option Expr → List Outline
  | none => []
  | some object => [.node object.span object.inner]

def outlinesOfArgs : List Expr → List Outline
  | [] => []
  | arg :: rest => .node arg.span arg.inner :: outlinesOfArgs rest

end

def Expr.outline (e : Expr) : Outline := .node e.span e.inner

mutual

def Stmt.inner : Stmt → List Outline
  | .block _ body => outlinesOfBody body
  | .ifElse _ condition thenBranch elseBranch =>
    condition.outline :: .node thenBranch.span thenBranch.inner :: outlinesOfClause elseBranch
  | .whileLoop _ condition body => [condition.outline, .node body.span body.inner]
  | .forLoop _ init condition step body =>
    outlinesOfClause init ++ outlinesOfObject condition ++ outlinesOfClause step
      ++ [.node body.span body.inner]
  | .foreach _ item collection body =>
    [item.outline, collection.outline, .node body.span body.inner]
  | .ret _ value => outlinesOfObject value
  | .wait _ duration => [duration.outline]
  | .waitFrame _ | .breakLoop _ | .continueLoop _ | .empty _ => []
  | .waitTill _ object event targets =>
    object.outline :: event.outline :: targets.map Located.outline
  | .notify _ object event args => object.outline :: event.outline :: outlinesOfArgs args
  | .endOn _ object event => [object.outline, event.outline]
  | .assign _ target _ value => [target.outline, value.outline]
  | .incDec _ target _ => [target.outline]
  | .expr _ value => [value.outline]

def outlinesOfBody : List Stmt → List Outline
  | [] => []
  | s :: rest => .node s.span s.inner :: outlinesOfBody rest

def outlinesOfClause : Option Stmt → List Outline
  | none => []
  | some s => [.node s.span s.inner]

end

def Stmt.outline (s : Stmt) : Outline := .node s.span s.inner

-- The equations of definitions by this many cases are made once, before the proofs that use them.
attribute [local simp] Expr.inner Stmt.inner

def Function.outline (f : Function) : Outline :=
  .node f.span (.leaf f.nameSpan :: f.params.map Located.outline ++ outlinesOfBody f.body)

@[simp] theorem Expr.span_withSpan (span : Span) (e : Expr) : (e.withSpan span).span = span := by
  cases e <;> rfl

@[simp] theorem Expr.inner_withSpan (span : Span) (e : Expr) :
    (e.withSpan span).inner = e.inner := by
  cases e <;> simp only [Expr.withSpan, Expr.inner]

end Gsc
