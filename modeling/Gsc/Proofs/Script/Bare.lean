import Gsc.Proofs.Script.Meanings

/-! # Scripts up to ranges

The bare form of a script has the empty range at the start everywhere. What a rule means, up to
ranges, depends only on what its parts mean up to ranges.
-/

namespace Gsc

abbrev Span.none : Span := .point 0

def Located.bare (l : Located String) : Located String := ⟨l.value, .none⟩

mutual

def Expr.bare : Expr → Expr
  | .int _ value => .int .none value
  | .float _ value => .float .none value
  | .text _ value => .text .none value
  | .localized _ key => .localized .none key
  | .undefined _ => .undefined .none
  | .bool _ value => .bool .none value
  | .level _ => .level .none
  | .self _ => .self .none
  | .game _ => .game .none
  | .anim _ => .anim .none
  | .emptyArray _ => .emptyArray .none
  | .vector _ x y z => .vector .none x.bare y.bare z.bare
  | .ident _ name => .ident .none name
  | .functionRef _ path name => .functionRef .none path name
  | .field _ base name => .field .none base.bare name
  | .index _ base i => .index .none base.bare i.bare
  | .call _ object thread callee args =>
    .call .none (bareObject object) thread callee.bare (bareArgs args)
  | .unary _ op operand => .unary .none op operand.bare
  | .binary _ left op right => .binary .none left.bare op right.bare
  | .ternary _ condition thenExpr elseExpr =>
    .ternary .none condition.bare thenExpr.bare elseExpr.bare

def Callee.bare : Callee → Callee
  | .named name => .named name
  | .far path name => .far path name
  | .pointer target => .pointer target.bare

def bareObject : Option Expr → Option Expr
  | none => none
  | some object => some object.bare

def bareArgs : List Expr → List Expr
  | [] => []
  | arg :: rest => arg.bare :: bareArgs rest

end

mutual

def Stmt.bare : Stmt → Stmt
  | .block _ body => .block .none (bareBody body)
  | .ifElse _ condition thenBranch elseBranch =>
    .ifElse .none condition.bare thenBranch.bare (bareClause elseBranch)
  | .whileLoop _ condition body => .whileLoop .none condition.bare body.bare
  | .forLoop _ init condition step body =>
    .forLoop .none (bareClause init) (bareObject condition) (bareClause step) body.bare
  | .foreach _ item collection body => .foreach .none item.bare collection.bare body.bare
  | .ret _ value => .ret .none (bareObject value)
  | .wait _ duration => .wait .none duration.bare
  | .waitFrame _ => .waitFrame .none
  | .breakLoop _ => .breakLoop .none
  | .continueLoop _ => .continueLoop .none
  | .waitTill _ object event targets =>
    .waitTill .none object.bare event.bare (targets.map Located.bare)
  | .notify _ object event args => .notify .none object.bare event.bare (bareArgs args)
  | .endOn _ object event => .endOn .none object.bare event.bare
  | .assign _ target op value => .assign .none target.bare op value.bare
  | .incDec _ target increment => .incDec .none target.bare increment
  | .expr _ value => .expr .none value.bare
  | .empty _ => .empty .none

def bareBody : List Stmt → List Stmt
  | [] => []
  | s :: rest => s.bare :: bareBody rest

def bareClause : Option Stmt → Option Stmt
  | none => none
  | some s => some s.bare

end

-- The equations of definitions by this many cases are made once, before the proofs that use them.
attribute [local simp] Expr.bare Stmt.bare

def Function.bare (f : Function) : Function :=
  ⟨f.name, .none, f.params.map Located.bare, bareBody f.body, .none⟩

def Script.bare (s : Script) : Script :=
  ⟨s.includes.map Located.bare, s.animtree.map Located.bare, s.functions.map Function.bare⟩

@[simp] theorem Expr.bare_withSpan (span : Span) (e : Expr) : (e.withSpan span).bare = e.bare := by
  cases e <;> simp [withSpan, bare]

/-! ## Parts that agree up to ranges -/

namespace Part

/-- The same part, up to ranges. -/
inductive Like : Part → Part → Prop
  | mark : Like .mark .mark
  | thread : Like .thread .thread
  | name {n n' : Located String} : n.value = n'.value → Like (.name n) (.name n')
  | path {p p' : Located String} : p.value = p'.value → Like (.path p) (.path p')
  | text {s s' : Located String} : s.value = s'.value → Like (.text s) (.text s')
  | operand {e e' : Expr} : e.bare = e'.bare → Like (.item (.operand e)) (.item (.operand e'))
  | before {op : UnaryOp} {span span' : Span} :
      Like (.item (.before op span)) (.item (.before op span'))
  | between {op : BinaryOp} : Like (.item (.between op)) (.item (.between op))
  | field {name : String} {span span' : Span} :
      Like (.item (.behind (.field name) span)) (.item (.behind (.field name) span'))
  | index {e e' : Expr} {span span' : Span} : e.bare = e'.bare →
      Like (.item (.behind (.index e) span)) (.item (.behind (.index e') span'))
  | call {thread : Bool} {c c' : Callee} {es es' : List Expr} {span span' : Span} :
      c.bare = c'.bare → bareArgs es = bareArgs es' →
      Like (.item (.behind (.call thread c es) span)) (.item (.behind (.call thread c' es') span'))
  | expr {e e' : Expr} : e.bare = e'.bare → Like (.expr e) (.expr e')
  | choice {t t' e e' : Expr} : t.bare = t'.bare → e.bare = e'.bare →
      Like (.choice t e) (.choice t' e')
  | callee {c c' : Callee} : c.bare = c'.bare → Like (.callee c) (.callee c')
  | args {es es' : List Expr} : bareArgs es = bareArgs es' → Like (.args es) (.args es')
  | assignOp {op : AssignOp} : Like (.assignOp op) (.assignOp op)
  | assign {t t' v v' : Expr} {op : AssignOp} : t.bare = t'.bare → v.bare = v'.bare →
      Like (.assign t op v) (.assign t' op v')
  | stmt {s s' : Stmt} : s.bare = s'.bare → Like (.stmt s) (.stmt s')
  | params {ns ns' : List (Located String)} : ns.map Located.bare = ns'.map Located.bare →
      Like (.params ns) (.params ns')
  | function {f f' : Function} : f.bare = f'.bare → Like (.function f) (.function f')
  | script {s s' : Script} : s.bare = s'.bare → Like (.script s) (.script s')

/-- Whatever ranges its parts have, the rule means the same, up to ranges. -/
def Combines (rule : Rule) (parts : List Part) (part : Part) : Prop :=
  ∀ span chars read, List.Forall₂ Like read parts →
    ∃ part', StandsFor span chars rule read part' ∧ Like part' part

variable {span : Span} {e x y z : Expr} {n p s : Located String} {es : List Expr} {callee : Callee}

theorem combines_ending : Combines .ending [] .mark := by
  rintro _ _ _ (_ | _)
  exact ⟨_, .ending, .mark⟩

theorem combines_thread : Combines (.word .threadWord) [] .thread := by
  rintro _ _ _ (_ | _)
  exact ⟨_, .thread, .thread⟩

theorem combines_literal (l : Literal) :
    Combines (.literal l) [] (.item (.operand (Lexeme.ofLiteral span l))) := by
  rintro _ _ _ (_ | _)
  exact ⟨_, .literal l, .operand (by cases l <;> simp [Lexeme.ofLiteral, Expr.bare])⟩

theorem combines_localized :
    Combines .localized [.text s] (.item (.operand (.localized span s.value))) := by
  rintro _ _ _ (_ | ⟨hs, _ | _⟩)
  have .text hs := hs
  exact ⟨_, .localized _, .operand (by simp [Expr.bare, hs])⟩

theorem combines_reference :
    Combines .funcRef [.name n] (.item (.operand (.functionRef span none n.value))) := by
  rintro _ _ _ (_ | ⟨hn, _ | _⟩)
  have .name hn := hn
  exact ⟨_, .functionRef _, .operand (by simp [Expr.bare, hn])⟩

theorem combines_farReference :
    Combines .funcRef [.path p, .name n]
      (.item (.operand (.functionRef span (some p.value) n.value))) := by
  rintro _ _ _ (_ | ⟨hp, _ | ⟨hn, _ | _⟩⟩)
  have .path hp := hp
  have .name hn := hn
  exact ⟨_, .farFunctionRef _ _, .operand (by simp [Expr.bare, hp, hn])⟩

theorem combines_parenthesis : Combines .parenOrVector [.expr e] (.item (.operand e)) := by
  rintro _ _ _ (_ | ⟨he, _ | _⟩)
  have .expr he := he
  exact ⟨_, .paren _, .operand (by simp [he])⟩

theorem combines_vector :
    Combines .parenOrVector [.expr x, .expr y, .expr z]
      (.item (.operand (.vector span x y z))) := by
  rintro _ _ _ (_ | ⟨hx, _ | ⟨hy, _ | ⟨hz, _ | _⟩⟩⟩)
  have .expr hx := hx
  have .expr hy := hy
  have .expr hz := hz
  exact ⟨_, .vector _ _ _, .operand (by simp [Expr.bare, hx, hy, hz])⟩

theorem combines_emptyArray :
    Combines .emptyArray [] (.item (.operand (.emptyArray span))) := by
  rintro _ _ _ (_ | _)
  exact ⟨_, .emptyArray, .operand (by simp [Expr.bare])⟩

theorem combines_member : Combines .member [.name n] (.item (.behind (.field n.value) span)) := by
  rintro _ _ _ (_ | ⟨hn, _ | _⟩)
  have .name hn := hn
  exact ⟨_, .member _, hn ▸ .field⟩

theorem combines_index : Combines .index [.expr e] (.item (.behind (.index e) span)) := by
  rintro _ _ _ (_ | ⟨he, _ | _⟩)
  have .expr he := he
  exact ⟨_, .index _, .index he⟩

theorem combines_ternarySuffix : Combines .ternarySuffix [.expr x, .expr y] (.choice x y) := by
  rintro _ _ _ (_ | ⟨hx, _ | ⟨hy, _ | _⟩⟩)
  have .expr hx := hx
  have .expr hy := hy
  exact ⟨_, .choice _ _, .choice hx hy⟩

/-! ## Calls -/

theorem combines_named : Combines .namedCallee [.name n] (.callee (.named n.value)) := by
  rintro _ _ _ (_ | ⟨hn, _ | _⟩)
  have .name hn := hn
  exact ⟨_, .named _, .callee (by simp [Callee.bare, hn])⟩

theorem combines_far :
    Combines .farCallee [.path p, .name n] (.callee (.far p.value n.value)) := by
  rintro _ _ _ (_ | ⟨hp, _ | ⟨hn, _ | _⟩⟩)
  have .path hp := hp
  have .name hn := hn
  exact ⟨_, .far _ _, .callee (by simp [Callee.bare, hp, hn])⟩

theorem combines_pointer : Combines .pointerCallee [.expr e] (.callee (.pointer e)) := by
  rintro _ _ _ (_ | ⟨he, _ | _⟩)
  have .expr he := he
  exact ⟨_, .pointer _, .callee (by simp [Callee.bare, he])⟩

theorem exists_exprs {read : List Part} (h : List.Forall₂ Like read (es.map .expr)) :
    ∃ es' : List Expr, read = es'.map .expr ∧ bareArgs es' = bareArgs es := by
  induction es generalizing read with
  | nil =>
      cases h
      exact ⟨[], rfl, rfl⟩
  | cons e es ih =>
      obtain _ | ⟨he, hes⟩ := h
      have .expr he := he
      obtain ⟨es', rfl, hes'⟩ := ih hes
      exact ⟨_ :: es', rfl, by simp [bareArgs, he, hes']⟩

theorem combines_args (es : List Expr) : Combines .callArgs (es.map .expr) (.args es) := by
  intro _ _ read h
  obtain ⟨es', rfl, hes⟩ := exists_exprs h
  exact ⟨.args es', .args es', .args hes⟩

theorem exists_callParts {read : List Part} {thread : Bool}
    (h : List.Forall₂ Like read (callParts thread callee es)) :
    ∃ callee' es', read = callParts thread callee' es' ∧ callee'.bare = callee.bare ∧
      bareArgs es' = bareArgs es := by
  cases thread with
  | true =>
      obtain _ | ⟨ht, _ | ⟨hc, _ | ⟨hes, _ | _⟩⟩⟩ := h
      have .thread := ht
      have .callee hc := hc
      have .args hes := hes
      exact ⟨_, _, rfl, hc, hes⟩
  | false =>
      obtain _ | ⟨hc, _ | ⟨hes, _ | _⟩⟩ := h
      have .callee hc := hc
      have .args hes := hes
      exact ⟨_, _, rfl, hc, hes⟩

theorem combines_call {thread : Bool} :
    Combines .funcCall (callParts thread callee es)
      (.item (.operand (.call span none thread callee es))) := by
  intro span' chars read h
  obtain ⟨callee', es', rfl, hc, hes⟩ := exists_callParts h
  exact ⟨_, .funcCall thread callee' es', .operand (by simp [Expr.bare, bareObject, hc, hes])⟩

theorem combines_methodCall {thread : Bool} :
    Combines .methodCall (callParts thread callee es)
      (.item (.behind (.call thread callee es) span)) := by
  intro span' chars read h
  obtain ⟨callee', es', rfl, hc, hes⟩ := exists_callParts h
  exact ⟨_, .methodCall thread callee' es', .call hc hes⟩

/-! ## Rows -/

variable {part other : Part}

theorem Like.operand? (h : Like part other) (ho : other.item? = some (.operand e)) :
    ∃ e', part.item? = some (.operand e') ∧ e'.bare = e.bare := by
  cases h with
  | name hn =>
      cases ho
      exact ⟨_, rfl, by simp [Expr.bare, hn]⟩
  | text hs =>
      cases ho
      exact ⟨_, rfl, by simp [Expr.bare, hs]⟩
  | operand he =>
      cases ho
      exact ⟨_, rfl, he⟩
  | _ => cases ho

theorem row_operand (e : Expr) : Item.Row [.operand e] e :=
  ⟨.operand (.operand e), rfl, rfl, .operand e⟩

theorem row_before (op : UnaryOp) (span : Span) (e : Expr) :
    Item.Row [.before op span, .operand e] (op.apply span e) :=
  ⟨.before (.before op span) (.operand (.operand e)), rfl, ⟨rfl, rfl, nofun⟩,
    .before op span (.operand e)⟩

theorem row_behind (e : Expr) (suffix : Suffix) (span : Span) :
    Item.Row [.operand e, .behind suffix span] (suffix.apply e span) :=
  ⟨.behind (.operand (.operand e)) (.behind suffix span), rfl, ⟨rfl, rfl, nofun, nofun⟩,
    .behind suffix span (.operand e)⟩

theorem row_between (x : Expr) (op : BinaryOp) (y : Expr) :
    Item.Row [.operand x, .between op, .operand y] (op.apply x y) :=
  ⟨.between (.operand (.operand x)) (.between op) (.operand (.operand y)), rfl,
    ⟨op.rank, rfl, rfl, rfl, nofun, nofun⟩, .between op (.operand x) (.operand y)⟩

theorem combines_operand (h : part.item? = some (.operand e)) :
    Combines .expr [part] (.expr e) := by
  rintro _ _ _ (_ | ⟨hp, _ | _⟩)
  obtain ⟨e', hp, he⟩ := hp.operand? h
  exact ⟨_, .expr (.cons hp .nil) (row_operand e'), .expr he⟩

theorem combines_ternaryRow (h : part.item? = some (.operand e)) :
    Combines .expr [part, .choice x y] (.expr (.ternary span e x y)) := by
  rintro _ _ _ (_ | ⟨hp, _ | ⟨hc, _ | _⟩⟩)
  obtain ⟨e', hp, he⟩ := hp.operand? h
  have .choice hx hy := hc
  exact ⟨_, .ternary (.cons hp .nil) (row_operand e') _ _,
    .expr (by simp [Expr.bare, he, hx, hy])⟩

variable {span' : Span}

theorem combines_unaryRow {op : UnaryOp} (h : part.item? = some (.operand e)) :
    Combines .expr [.item (.before op span'), part] (.expr (.unary span op e)) := by
  rintro _ _ _ (_ | ⟨ho, _ | ⟨hp, _ | _⟩⟩)
  have .before := ho
  obtain ⟨e', hp, he⟩ := hp.operand? h
  exact ⟨_, .expr (.cons rfl (.cons hp .nil)) (row_before op _ e'),
    .expr (by simp [UnaryOp.apply, Expr.bare, he])⟩

theorem combines_binaryRow {op : BinaryOp} (hx : part.item? = some (.operand x))
    (hy : other.item? = some (.operand y)) :
    Combines .expr [part, .item (.between op), other] (.expr (.binary span x op y)) := by
  rintro _ _ _ (_ | ⟨hp, _ | ⟨ho, _ | ⟨hq, _ | _⟩⟩⟩)
  have .between := ho
  obtain ⟨x', hp, hx⟩ := hp.operand? hx
  obtain ⟨y', hq, hy⟩ := hq.operand? hy
  exact ⟨_, .expr (.cons hp (.cons rfl (.cons hq .nil))) (row_between x' op y'),
    .expr (by simp [BinaryOp.apply, Expr.bare, hx, hy])⟩

theorem combines_fieldRow {name : String} (h : part.item? = some (.operand e)) :
    Combines .expr [part, .item (.behind (.field name) span')] (.expr (.field span e name)) := by
  rintro _ _ _ (_ | ⟨hp, _ | ⟨hs, _ | _⟩⟩)
  have .field := hs
  obtain ⟨e', hp, he⟩ := hp.operand? h
  exact ⟨_, .expr (.cons hp (.cons rfl .nil)) (row_behind e' _ _),
    .expr (by simp [Suffix.apply, Expr.bare, he])⟩

theorem combines_indexRow (h : part.item? = some (.operand e)) :
    Combines .expr [part, .item (.behind (.index x) span')] (.expr (.index span e x)) := by
  rintro _ _ _ (_ | ⟨hp, _ | ⟨hs, _ | _⟩⟩)
  have .index hx := hs
  obtain ⟨e', hp, he⟩ := hp.operand? h
  exact ⟨_, .expr (.cons hp (.cons rfl .nil)) (row_behind e' _ _),
    .expr (by simp [Suffix.apply, Expr.bare, he, hx])⟩

theorem combines_callRow {thread : Bool} (h : part.item? = some (.operand e)) :
    Combines .expr [part, .item (.behind (.call thread callee es) span')]
      (.expr (.call span (some e) thread callee es)) := by
  rintro _ _ _ (_ | ⟨hp, _ | ⟨hs, _ | _⟩⟩)
  have .call hc hes := hs
  obtain ⟨e', hp, he⟩ := hp.operand? h
  exact ⟨_, .expr (.cons hp (.cons rfl .nil)) (row_behind e' _ _),
    .expr (by simp [Suffix.apply, Expr.bare, bareObject, he, hc, hes])⟩

/-! ## Statements and files -/

variable {stmt : Stmt}

theorem combines_assignExpr {op : AssignOp} :
    Combines .assignExpr [.expr x, .assignOp op, .expr y] (.assign x op y) := by
  rintro _ _ _ (_ | ⟨hx, _ | ⟨ho, _ | ⟨hy, _ | _⟩⟩⟩)
  have .expr hx := hx
  have .assignOp := ho
  have .expr hy := hy
  exact ⟨_, .assign _ op _, .assign hx hy⟩

theorem combines_exprStmt {op : AssignOp} :
    Combines .exprStmt [.assign x op y] (.stmt (.assign span x op y)) := by
  rintro _ _ _ (_ | ⟨hs, _ | _⟩)
  have .assign hx hy := hs
  exact ⟨_, .simple rfl, .stmt (by simp [Stmt.bare, hx, hy])⟩

theorem combines_block : Combines .block [.stmt stmt] (.stmt (.block span [stmt])) := by
  rintro _ _ _ (_ | ⟨hs, _ | _⟩)
  have .stmt hs := hs
  exact ⟨_, .block [_], .stmt (by simp [Stmt.bare, bareBody, hs])⟩

theorem combines_noParams : Combines .params [] (.params []) := by
  rintro _ _ _ (_ | _)
  exact ⟨_, .params [], .params rfl⟩

theorem exists_block {body : List Stmt} (h : stmt.bare = (Stmt.block span body).bare) :
    ∃ span' body', stmt = .block span' body' ∧ bareBody body' = bareBody body := by
  cases stmt with
  | block span' body' =>
      simp only [Stmt.bare, Stmt.block.injEq, true_and] at h
      exact ⟨span', body', rfl, h⟩
  | _ => simp [Stmt.bare] at h

theorem combines_functionDef {ps : List (Located String)} {body : List Stmt} :
    Combines .functionDef [.name n, .params ps, .stmt (.block span body)]
      (.function ⟨n.value, n.span, ps, body, span'⟩) := by
  rintro _ _ _ (_ | ⟨hn, _ | ⟨hps, _ | ⟨hs, _ | _⟩⟩⟩)
  have .name hn := hn
  have .params hps := hps
  have .stmt hs := hs
  obtain ⟨_, body', rfl, hbody⟩ := exists_block hs
  exact ⟨_, .function _ _ _ _, .function (by simp [Function.bare, hn, hps, hbody])⟩

theorem combines_file {f : Function} :
    Combines .file [.function f, .mark] (.script ⟨[], none, [f]⟩) := by
  rintro _ _ _ (_ | ⟨hf, _ | ⟨hm, _ | _⟩⟩)
  have .function hf := hf
  have .mark := hm
  exact ⟨_, .file _, .script (by simp [addTo, Script.bare, Script.empty, hf])⟩

end Part

end Gsc
