import Gsc.Proofs.Script.Operators

/-! # What trees mean

`StandsFor` says what a rule stands for, given its range, its text and what its parts stand for,
with one case for each form that the parts may have. A tree means what its rule stands for, given
what the trees in it mean, and it means one thing at most.
-/

namespace Gsc

open Gsc.Peg
open Gsc.Peg.Pratt (Role Grouping)

inductive Item where
  | operand (value : Expr)
  | before (op : UnaryOp) (span : Span)
  | between (op : BinaryOp)
  | behind (suffix : Suffix) (span : Span)

namespace Item

def rule : Item → Rule
  | operand _ => .ident
  | before op _ => .unary op
  | between op => .binary op
  | behind .. => .member

def role (i : Item) : Option Role := i.rule.role?

/-- The expression that is built when elements are grouped so. -/
inductive Builds : Grouping Item → Expr → Prop
  | operand (e : Expr) : Builds (.operand (.operand e)) e
  | before {g : Grouping Item} {e : Expr} (op : UnaryOp) (span : Span) (h : Builds g e) :
      Builds (.before (.before op span) g) (op.apply span e)
  | between {left right : Grouping Item} {x y : Expr} (op : BinaryOp) (hx : Builds left x)
      (hy : Builds right y) : Builds (.between left (.between op) right) (op.apply x y)
  | behind {g : Grouping Item} {e : Expr} (suffix : Suffix) (span : Span) (h : Builds g e) :
      Builds (.behind g (.behind suffix span)) (suffix.apply e span)

theorem Builds.unique {g : Grouping Item} {e e' : Expr} (h : Builds g e) (h' : Builds g e') :
    e = e' := by
  induction h generalizing e' with
  | operand e =>
      cases h'
      rfl
  | before op span _ ih =>
      cases h' with
      | before _ _ h' => rw [ih h']
  | between op _ _ ihx ihy =>
      cases h' with
      | between _ hx' hy' => rw [ihx hx', ihy hy']
  | behind suffix span _ ih =>
      cases h' with
      | behind _ _ h' => rw [ih h']

/-- The elements are grouped as their ranks want it, and the expression is built so. -/
def Row (items : List Item) (e : Expr) : Prop :=
  ∃ g : Grouping Item, g.row = items ∧ g.Grouped role ∧ Builds g e

theorem Row.unique {items : List Item} {e e' : Expr} (h : Row items e) (h' : Row items e') :
    e = e' := by
  obtain ⟨g, rfl, hg, he⟩ := h
  obtain ⟨g', hrow, hg', he'⟩ := h'
  obtain rfl := (Script.layered_precedence rule).eq_of_row (by decide) hg' hg hrow
  exact he.unique he'

end Item

inductive Part where
  | mark
  | thread
  | name (name : Located String)
  | path (path : Located String)
  | text (value : Located String)
  | item (item : Item)
  | expr (value : Expr)
  | choice (thenExpr elseExpr : Expr)
  | callee (callee : Callee)
  | args (args : List Expr)
  | assignOp (op : AssignOp)
  | incDecOp (increment : Bool)
  | assign (target : Expr) (op : AssignOp) (value : Expr)
  | incDec (target : Expr) (increment : Bool)
  | stmt (stmt : Stmt)
  | clause (stmt : Option Stmt)
  | condition (expr : Option Expr)
  | params (names : List (Located String))
  | included (path : Located String)
  | animtree (name : Located String)
  | function (function : Function)
  | script (script : Script)

namespace Part

/-- A part as an element of an expression: names and strings are operands. -/
def item? : Part → Option Item
  | .item i => some i
  | .name n => some (.operand (.ident n.span n.value))
  | .text s => some (.operand (.text s.span s.value))
  | _ => none

def Items : List Part → List Item → Prop := List.Forall₂ fun part i => part.item? = some i

/-- An assignment, an increment, or an expression as a statement that takes up `span`. -/
def simple? (span : Span) : Part → Option Stmt
  | .assign t op v => some (.assign span t op v)
  | .incDec t increment => some (.incDec span t increment)
  | .expr e => some (.expr span e)
  | _ => none

def callParts (thread : Bool) (callee : Callee) (args : List Expr) : List Part :=
  (if thread then [.thread] else []) ++ [.callee callee, .args args]

def addTo (script : Script) : Part → Script
  | .included p => { script with includes := script.includes ++ [p] }
  | .animtree n => { script with animtree := some n }
  | .function f => { script with functions := script.functions ++ [f] }
  | _ => script

/-! ## Rules -/

/-- What a rule stands for, given its range, its text and its parts. -/
inductive StandsFor (span : Span) (chars : List Char) : Rule → List Part → Part → Prop
  | ending : StandsFor span chars .ending [] .mark
  | thread : StandsFor span chars (.word .threadWord) [] .thread
  | word {w : Word} (h : w ≠ .threadWord) : StandsFor span chars (.word w) [] .mark
  | ident : StandsFor span chars .ident [] (.name ⟨Lexeme.lowercase chars, span⟩)
  | fieldName : StandsFor span chars .fieldName [] (.name ⟨Lexeme.lowercase chars, span⟩)
  | path : StandsFor span chars .path [] (.path ⟨Lexeme.normalizePath chars, span⟩)
  | number {e : Expr} (h : Lexeme.number? chars span = some e) :
      StandsFor span chars .number [] (.item (.operand e))
  | string : StandsFor span chars .string [] (.text ⟨Lexeme.unquote chars, span⟩)
  | localized (s : Located String) :
      StandsFor span chars .localized [.text s] (.item (.operand (.localized span s.value)))
  | literal (l : Literal) :
      StandsFor span chars (.literal l) [] (.item (.operand (Lexeme.ofLiteral span l)))
  | file (parts : List Part) :
      StandsFor span chars .file parts (.script (parts.foldl addTo .empty))
  | included (p : Located String) : StandsFor span chars .includeDirective [.path p] (.included p)
  | animtree (s : Located String) :
      StandsFor span chars .animtreeDirective [.text s] (.animtree s)
  | function (n : Located String) (ps : List (Located String)) (place : Span) (body : List Stmt) :
      StandsFor span chars .functionDef [.name n, .params ps, .stmt (.block place body)]
        (.function ⟨n.value, n.span, ps, body, span⟩)
  | params (names : List (Located String)) :
      StandsFor span chars .params (names.map .name) (.params names)
  | block (body : List Stmt) :
      StandsFor span chars .block (body.map .stmt) (.stmt (.block span body))
  | ifThen (c : Expr) (t : Stmt) :
      StandsFor span chars .ifStmt [.mark, .expr c, .stmt t] (.stmt (.ifElse span c t none))
  | ifElse (c : Expr) (t e : Stmt) :
      StandsFor span chars .ifStmt [.mark, .expr c, .stmt t, .mark, .stmt e]
        (.stmt (.ifElse span c t (some e)))
  | whileLoop (c : Expr) (b : Stmt) :
      StandsFor span chars .whileStmt [.mark, .expr c, .stmt b] (.stmt (.whileLoop span c b))
  | forLoop (init step : Option Stmt) (c : Option Expr) (b : Stmt) :
      StandsFor span chars .forStmt [.mark, .clause init, .condition c, .clause step, .stmt b]
        (.stmt (.forLoop span init c step b))
  | noInit : StandsFor span chars .forInit [] (.clause none)
  | init {part : Part} {s : Stmt} (h : part.simple? span = some s) :
      StandsFor span chars .forInit [part] (.clause (some s))
  | noCondition : StandsFor span chars .forCond [] (.condition none)
  | condition (e : Expr) : StandsFor span chars .forCond [.expr e] (.condition (some e))
  | noStep : StandsFor span chars .forStep [] (.clause none)
  | step {part : Part} {s : Stmt} (h : part.simple? span = some s) :
      StandsFor span chars .forStep [part] (.clause (some s))
  | foreach (v : Located String) (c : Expr) (b : Stmt) :
      StandsFor span chars .foreachStmt [.mark, .name v, .mark, .expr c, .stmt b]
        (.stmt (.foreach span v c b))
  | finish : StandsFor span chars .returnStmt [.mark] (.stmt (.ret span none))
  | giveBack (e : Expr) :
      StandsFor span chars .returnStmt [.mark, .expr e] (.stmt (.ret span (some e)))
  | wait (e : Expr) : StandsFor span chars .waitStmt [.mark, .expr e] (.stmt (.wait span e))
  | waitFrame : StandsFor span chars .waitFrameStmt [.mark] (.stmt (.waitFrame span))
  | breakLoop : StandsFor span chars .breakStmt [.mark] (.stmt (.breakLoop span))
  | continueLoop : StandsFor span chars .continueStmt [.mark] (.stmt (.continueLoop span))
  | empty : StandsFor span chars .emptyStmt [] (.stmt (.empty span))
  | waitTill (o e : Expr) (names : List (Located String)) :
      StandsFor span chars .waitTillStmt (.expr o :: .mark :: .expr e :: names.map .name)
        (.stmt (.waitTill span o e names))
  | notify (o e : Expr) (args : List Expr) :
      StandsFor span chars .notifyStmt (.expr o :: .mark :: .expr e :: args.map .expr)
        (.stmt (.notify span o e args))
  | endOn (o e : Expr) :
      StandsFor span chars .endOnStmt [.expr o, .mark, .expr e] (.stmt (.endOn span o e))
  | simple {part : Part} {s : Stmt} (h : part.simple? span = some s) :
      StandsFor span chars .exprStmt [part] (.stmt s)
  | assign (t : Expr) (op : AssignOp) (v : Expr) :
      StandsFor span chars .assignExpr [.expr t, .assignOp op, .expr v] (.assign t op v)
  | incDec (t : Expr) (increment : Bool) :
      StandsFor span chars .incDecExpr [.expr t, .incDecOp increment] (.incDec t increment)
  | assignOp {op : AssignOp} (h : AssignOp.ofSymbol? (String.ofList chars) = some op) :
      StandsFor span chars .assignOp [] (.assignOp op)
  | incDecOp : StandsFor span chars .incDecOp [] (.incDecOp (chars = ['+', '+']))
  | expr {parts : List Part} {items : List Item} {e : Expr} (hparts : Items parts items)
      (h : Item.Row items e) : StandsFor span chars .expr parts (.expr e)
  | ternary {parts : List Part} {items : List Item} {c : Expr} (hparts : Items parts items)
      (h : Item.Row items c) (t e : Expr) :
      StandsFor span chars .expr (parts ++ [.choice t e]) (.expr (.ternary span c t e))
  | choice (t e : Expr) : StandsFor span chars .ternarySuffix [.expr t, .expr e] (.choice t e)
  | unary (op : UnaryOp) : StandsFor span chars (.unary op) [] (.item (.before op span))
  | binary (op : BinaryOp) : StandsFor span chars (.binary op) [] (.item (.between op))
  | member (n : Located String) :
      StandsFor span chars .member [.name n] (.item (.behind (.field n.value) span))
  | index (e : Expr) : StandsFor span chars .index [.expr e] (.item (.behind (.index e) span))
  | methodCall (thread : Bool) (callee : Callee) (args : List Expr) :
      StandsFor span chars .methodCall (callParts thread callee args)
        (.item (.behind (.call thread callee args) span))
  | funcCall (thread : Bool) (callee : Callee) (args : List Expr) :
      StandsFor span chars .funcCall (callParts thread callee args)
        (.item (.operand (.call span none thread callee args)))
  | pointer (e : Expr) : StandsFor span chars .pointerCallee [.expr e] (.callee (.pointer e))
  | far (p n : Located String) :
      StandsFor span chars .farCallee [.path p, .name n] (.callee (.far p.value n.value))
  | named (n : Located String) :
      StandsFor span chars .namedCallee [.name n] (.callee (.named n.value))
  | args (args : List Expr) : StandsFor span chars .callArgs (args.map .expr) (.args args)
  | functionRef (n : Located String) :
      StandsFor span chars .funcRef [.name n]
        (.item (.operand (.functionRef span none n.value)))
  | farFunctionRef (p n : Located String) :
      StandsFor span chars .funcRef [.path p, .name n]
        (.item (.operand (.functionRef span (some p.value) n.value)))
  | paren (e : Expr) :
      StandsFor span chars .parenOrVector [.expr e] (.item (.operand (e.withSpan span)))
  | vector (x y z : Expr) :
      StandsFor span chars .parenOrVector [.expr x, .expr y, .expr z]
        (.item (.operand (.vector span x y z)))
  | emptyArray : StandsFor span chars .emptyArray [] (.item (.operand (.emptyArray span)))

/-! ## One meaning at most -/

theorem callParts_inj {thread thread' : Bool} {callee callee' : Callee} {args args' : List Expr}
    (h : callParts thread callee args = callParts thread' callee' args') :
    thread = thread' ∧ callee = callee' ∧ args = args' := by
  cases thread <;> cases thread' <;> simp_all [callParts]

theorem Items.unique {parts : List Part} {items items' : List Item} (h : Items parts items)
    (h' : Items parts items') : items = items' := by
  induction h generalizing items' with
  | nil =>
      cases h'
      rfl
  | cons hi _ ih =>
      obtain _ | ⟨hi', hrest⟩ := h'
      rw [Option.some.inj (hi.symm.trans hi'), ih hrest]

theorem Items.not_choice {parts : List Part} {items : List Item} {t e : Expr}
    (h : Items parts items) : .choice t e ∉ parts := by
  intro hmem
  induction h with
  | nil => cases hmem
  | cons hi _ ih =>
      rcases List.mem_cons.1 hmem with rfl | hmem
      · cases hi
      · exact ih hmem

theorem StandsFor.unique {span : Span} {chars : List Char} {r : Rule} {parts parts' : List Part}
    {part part' : Part} (h : StandsFor span chars r parts part)
    (h' : StandsFor span chars r parts' part') (hp : parts = parts') : part = part' := by
  cases h with
  | thread =>
      cases h' with
      | thread => rfl
      | word hw => exact absurd rfl hw
  | word hw =>
      cases h' with
      | thread => exact absurd rfl hw
      | word => rfl
  | number hn =>
      cases h' with
      | number hn' => rw [Option.some.inj (hn.symm.trans hn')]
  | assignOp ho =>
      cases h' with
      | assignOp ho' => rw [Option.some.inj (ho.symm.trans ho')]
  | init hs =>
      cases h' with
      | noInit => cases hp
      | init hs' =>
          cases hp
          rw [Option.some.inj (hs.symm.trans hs')]
  | step hs =>
      cases h' with
      | noStep => cases hp
      | step hs' =>
          cases hp
          rw [Option.some.inj (hs.symm.trans hs')]
  | simple hs =>
      cases h' with
      | simple hs' =>
          cases hp
          rw [Option.some.inj (hs.symm.trans hs')]
  | params names =>
      cases h' with
      | params names' => rw [List.map_injective_iff.2 (fun _ _ => name.inj) hp]
  | block body =>
      cases h' with
      | block body' => rw [List.map_injective_iff.2 (fun _ _ => stmt.inj) hp]
  | args es =>
      cases h' with
      | args es' => rw [List.map_injective_iff.2 (fun _ _ => expr.inj) hp]
  | waitTill o e names =>
      cases h' with
      | waitTill o' e' names' =>
          simp only [List.cons.injEq, expr.injEq, true_and] at hp
          rw [hp.1, hp.2.1, List.map_injective_iff.2 (fun _ _ => name.inj) hp.2.2]
  | notify o e es =>
      cases h' with
      | notify o' e' es' =>
          simp only [List.cons.injEq, expr.injEq, true_and] at hp
          rw [hp.1, hp.2.1, List.map_injective_iff.2 (fun _ _ => expr.inj) hp.2.2]
  | methodCall | funcCall =>
      cases h'
      obtain ⟨rfl, rfl, rfl⟩ := callParts_inj hp
      rfl
  | expr hitems he =>
      cases h' with
      | expr hitems' he' =>
          subst hp
          obtain rfl := hitems.unique hitems'
          rw [he.unique he']
      | ternary hitems' he' =>
          subst hp
          exact absurd (List.mem_append_right _ List.mem_cons_self) hitems.not_choice
  | ternary hitems he t e =>
      cases h' with
      | expr hitems' he' =>
          subst hp
          exact absurd (List.mem_append_right _ List.mem_cons_self) hitems'.not_choice
      | ternary hitems' he' t' e' =>
          obtain ⟨rfl, hlast⟩ := List.append_inj' hp rfl
          cases hlast
          obtain rfl := hitems.unique hitems'
          rw [he.unique he']
  | _ =>
      cases h' <;> cases hp
      all_goals rfl

end Part

/-- What a tree means, given its rule and what the trees in it mean. -/
inductive Means : ParseTree Rule → Part → Prop
  | node {t : ParseTree Rule} {parts : List Part} {part : Part}
      (hparts : List.Forall₂ Means t.children parts)
      (h : Part.StandsFor t.span t.text t.rule parts part) : Means t part

theorem forall₂_unique {trees : List (ParseTree Rule)} {parts parts' : List Part}
    (h : List.Forall₂ Means trees parts) (h' : List.Forall₂ Means trees parts')
    (hone : ∀ t ∈ trees, ∀ part part', Means t part → Means t part' → part = part') :
    parts = parts' := by
  induction h generalizing parts' with
  | nil =>
      cases h'
      rfl
  | cons hp _ ih =>
      obtain _ | ⟨hp', hrest⟩ := h'
      rw [List.forall_mem_cons] at hone
      rw [hone.1 _ _ hp hp', ih hrest hone.2]

theorem Means.unique {t : ParseTree Rule} {part part' : Part} (h : Means t part)
    (h' : Means t part') : part = part' := by
  induction hn : t.height using Nat.strongRecOn generalizing t part part' with
  | ind n ih =>
      obtain ⟨hparts, h⟩ := h
      obtain ⟨hparts', h'⟩ := h'
      refine h.unique h' (forall₂_unique hparts hparts' fun u hu part part' h h' => ?_)
      exact ih u.height (hn ▸ ParseTree.height_lt_of_mem hu) h h' rfl

end Gsc
