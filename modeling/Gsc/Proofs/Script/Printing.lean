import Gsc.Proofs.Script.Calls
import Gsc.Proofs.Script.Depth
import Gsc.Proofs.Script.Statements

/-! # Writing expressions

`Expr.written` writes an expression with every expression inside it in parentheses and one space
between tokens. What is written is read back, so an assignment of it parses to that assignment.
-/

namespace Gsc

open Gsc.Peg
open Gsc.Peg.Pattern (lit)
open Script (parenthesized qualified quote callTokens)

/-! ## Tokens -/

mutual

/-- The tokens of an expression. The name of a function of another script is one token, since no
blank may stand around its colons. Floats are not written. -/
def Expr.tokens : Expr → List (List Char)
  | .int _ value => [Nat.toDigits 10 value.toInt.toNat]
  | .float _ _ => []
  | .text _ value => [quote value.toList]
  | .localized _ key => ['&' :: quote key.toList]
  | .undefined _ => [Literal.undefined.text.toList]
  | .bool _ true => [Literal.yes.text.toList]
  | .bool _ false => [Literal.no.text.toList]
  | .level _ => [Literal.level.text.toList]
  | .self _ => [Literal.self.text.toList]
  | .game _ => [Literal.game.text.toList]
  | .anim _ => [Literal.anim.text.toList]
  | .emptyArray _ => [['['], [']']]
  | .vector _ x y z =>
    ['('] :: (parenthesized x.tokens ++ [','] :: (parenthesized y.tokens
      ++ [','] :: (parenthesized z.tokens ++ [[')']])))
  | .ident _ name => [name.toList]
  | .functionRef _ none name => [':' :: ':' :: name.toList]
  | .functionRef _ (some path) name => [qualified path name]
  | .field _ base name => parenthesized base.tokens ++ [['.'], name.toList]
  | .index _ base i => parenthesized base.tokens ++ ['['] :: (parenthesized i.tokens ++ [[']']])
  | .call _ object thread callee args =>
    tokensOfObject object ++ callTokens thread callee.tokens (tokensOfArgs args)
  | .unary _ op operand => op.symbol.toList :: parenthesized operand.tokens
  | .binary _ left op right =>
    parenthesized left.tokens ++ op.symbol.toList :: parenthesized right.tokens
  | .ternary _ condition thenExpr elseExpr =>
    parenthesized condition.tokens ++ ['?'] :: (parenthesized thenExpr.tokens
      ++ [':'] :: parenthesized elseExpr.tokens)

def Callee.tokens : Callee → List (List Char)
  | .named name => [name.toList]
  | .far path name => [qualified path name]
  | .pointer target => ['[', '['] :: (parenthesized target.tokens ++ [[']', ']']])

def tokensOfObject : Option Expr → List (List Char)
  | none => []
  | some object => parenthesized object.tokens

def tokensOfArgs : List Expr → List (List (List Char))
  | [] => []
  | arg :: rest => arg.tokens :: tokensOfArgs rest

end

def Expr.written (e : Expr) : String := String.ofList ([' '].intercalate e.tokens)

mutual

/-- The expressions that can be written: numbers are whole and not negative, names and paths are
such as the grammar reads, and no path of a call begins like a call in a thread. -/
def Expr.Writable : Expr → Prop
  | .int _ value => 0 ≤ value.toInt
  | .float _ _ => False
  | .text _ _ | .localized _ _ | .undefined _ | .bool _ _ | .level _ | .self _ | .game _ | .anim _
  | .emptyArray _ => True
  | .vector _ x y z => x.Writable ∧ y.Writable ∧ z.Writable
  | .ident _ name => Script.IsIdentifier name
  | .functionRef _ path name => (∀ p ∈ path, IsPath p.toList) ∧ Script.IsIdentifier name
  | .field _ base name => base.Writable ∧ isName name.toList = true
  | .index _ base i => base.Writable ∧ i.Writable
  | .call _ object thread callee args =>
    writableObject object ∧ callee.Writable thread ∧ writableArgs args
  | .unary _ _ operand => operand.Writable
  | .binary _ left _ right => left.Writable ∧ right.Writable
  | .ternary _ condition thenExpr elseExpr =>
    condition.Writable ∧ thenExpr.Writable ∧ elseExpr.Writable

def Callee.Writable (thread : Bool) : Callee → Prop
  | .named name => Script.IsIdentifier name
  | .far path name =>
    IsPath path.toList ∧ Script.IsIdentifier name ∧
      (thread = false → path.toList.takeWhile (· ≠ '/') ≠ "thread".toList)
  | .pointer target => target.Writable

def writableObject : Option Expr → Prop
  | none => True
  | some object => object.Writable

def writableArgs : List Expr → Prop
  | [] => True
  | arg :: rest => arg.Writable ∧ writableArgs rest

end

namespace Script

open Rule

/-! ## What is written is read back -/

theorem ofNat_toNat_toInt {value : Int64} (h : 0 ≤ value.toInt) :
    Int64.ofNat value.toInt.toNat = value := by
  rw [← Int64.ofInt_eq_ofNat, Int.toNat_of_nonneg h, Int64.ofInt_toInt]

theorem toNat_toInt_le (value : Int64) : value.toInt.toNat ≤ 9223372036854775807 := by
  have := value.toInt_lt
  omega

mutual

theorem readsExpr_tokens : (e : Expr) → e.Writable → ReadsExpr e.tokens e
  | .int span value, h => by
      have hnumber : ReadsExpr [Nat.toDigits 10 value.toInt.toNat]
          (.int span (Int64.ofNat value.toInt.toNat)) := .number (toNat_toInt_le value)
      rwa [ofNat_toNat_toInt h] at hnumber
  | .float _ _, h => h.elim
  | .text _ _, _ => .text
  | .localized _ _, _ => .localized
  | .undefined _, _ => .literal .undefined
  | .bool _ true, _ => .literal .yes
  | .bool _ false, _ => .literal .no
  | .level _, _ => .literal .level
  | .self _, _ => .literal .self
  | .game _, _ => .literal .game
  | .anim _, _ => .literal .anim
  | .emptyArray _, _ => .emptyArray
  | .vector _ x y z, h =>
      (readsExpr_tokens x h.1).vector (readsExpr_tokens y h.2.1) (readsExpr_tokens z h.2.2)
  | .ident _ _, h => .ident h
  | .functionRef _ none _, h => .reference h.2
  | .functionRef _ (some _) _, h => .farReference (h.1 _ rfl) h.2
  | .field _ base _, h => (readsExpr_tokens base h.1).field h.2
  | .index _ base i, h => (readsExpr_tokens base h.1).index (readsExpr_tokens i h.2)
  | .call _ none _ callee args, h =>
      .call (readsCallee_tokens callee h.2.1) (readsExpr_tokensOfArgs args h.2.2)
  | .call _ (some object) _ callee args, h =>
      (readsExpr_tokens object h.1).methodCall (readsCallee_tokens callee h.2.1)
        (readsExpr_tokensOfArgs args h.2.2)
  | .unary _ _ operand, h => (readsExpr_tokens operand h).unary
  | .binary _ left _ right, h => (readsExpr_tokens left h.1).binary (readsExpr_tokens right h.2)
  | .ternary _ condition thenExpr elseExpr, h =>
      (readsExpr_tokens condition h.1).ternary (readsExpr_tokens thenExpr h.2.1)
        (readsExpr_tokens elseExpr h.2.2)

theorem readsCallee_tokens {thread : Bool} :
    (c : Callee) → c.Writable thread → ReadsCallee thread c.tokens c
  | .named _, h => .named h
  | .far _ _, h => .far h.1 h.2.1 h.2.2
  | .pointer target, h => .pointer (readsExpr_tokens target h)

theorem readsExpr_tokensOfArgs :
    (args : List Expr) → writableArgs args → List.Forall₂ ReadsExpr (tokensOfArgs args) args
  | [], _ => .nil
  | arg :: rest, h => .cons (readsExpr_tokens arg h.1) (readsExpr_tokensOfArgs rest h.2)

end

/-! ## A file with one assignment -/

variable {e : Expr} {span : Span} {chars rest t : List Char} {tokens : List (List Char)}

theorem clear_nil : Clear [] :=
  ⟨fun _ => .of_outcome (n := 9) rfl (by simp), fun _ => .of_outcome (n := 9) rfl (by simp)⟩

theorem reads_ending : Reads .free (.rule ending) [] [] [.mark] := by
  have hbody : Reads .free (body ending) [] [] [] :=
    fun pos => ⟨pos, [], [], .of_outcome (n := 1) rfl (by simp), .nil, .nil⟩
  exact .rule hbody Part.combines_ending (by decide)

theorem reads_assignOp :
    Reads .free (.rule assignOp) ('=' :: ' ' :: rest) (' ' :: rest) [.assignOp .assign] := by
  have htakes : Takes grammar (body assignOp) ['='] (' ' :: rest) :=
    fun _ => .of_outcome (n := 20) rfl (by simp)
  exact .token htakes rfl (by decide) fun _ => ⟨_, .assignOp rfl, .assignOp⟩

theorem reads_target :
    Reads .free (.rule expr) ('x' :: ' ' :: '=' :: ' ' :: rest) ('=' :: ' ' :: rest)
      [.expr (.ident .none "x")] := by
  have hstops : Stops ('=' :: ' ' :: rest) := stops_append ['=', ' '] (by decide)
  have ht := tail_space hstops
  have hname : IsIdentifier "x" := by decide
  have hfront : WordFront ("x".toList ++ ' ' :: '=' :: ' ' :: rest) := wordFront_name hname.1
  exact reads_expr (reads_operand hfront.clear hfront.unary (reads_identifier hname ht) ht.gap
    hstops.suffix) hstops.clear.gap hstops (Part.combines_operand rfl)

variable {row : List Char}

theorem reads_assignment (h : Next .free (.rule expr) (' ' :: row) (';' :: t) [.expr e]) :
    Reads .free (.rule exprStmt) ('x' :: ' ' :: '=' :: ' ' :: row) t
      [.stmt (.assign span (.ident .none "x") .assign e)] := by
  have hclear : Clear ('=' :: ' ' :: row) := clear_append ['='] (by decide)
  have hassign : Reads .free (.rule assignExpr) ('x' :: ' ' :: '=' :: ' ' :: row) (';' :: t)
      [.assign (.ident .none "x") .assign e] :=
    .rule (.seq reads_target ⟨_, hclear.gap, .seq reads_assignOp h⟩) Part.combines_assignExpr
      (by decide)
  exact .rule (.seq hassign.alt_left ⟨_, (clear_append [';'] (by decide)).gap, .text [';']⟩)
    Part.combines_exprStmt (by decide)

/-- The assigned name is read as the object of an event, and no word of one follows it. -/
theorem fails_event {w : Word} {more : List (Pattern Rule)}
    (hw : Fails grammar .free (.rule (word w)) ('=' :: ' ' :: row)) :
    Fails grammar .free (eventForm w more) ('x' :: ' ' :: '=' :: ' ' :: row) :=
  have hclear : Clear ('=' :: ' ' :: row) := clear_append ['='] (by decide)
  reads_target.then_fails hclear.gap fun pos => .seq_failed_left (hw pos)

theorem reads_statement {part : Part}
    (h : Reads .free (.rule exprStmt) ('x' :: ' ' :: '=' :: ' ' :: row) t [part]) :
    Reads .free statement ('x' :: ' ' :: '=' :: ' ' :: row) t [part] := by
  have hwords : ∀ r ∈ [block, ifStmt, whileStmt, foreachStmt, forStmt, returnStmt, waitFrameStmt,
      waitStmt, breakStmt, continueStmt, emptyStmt],
      Fails grammar .free (.rule r) ('x' :: ' ' :: '=' :: ' ' :: row) :=
    fails_rules ['x', ' '] (by decide)
  have hevents : ∀ r ∈ [waitTillStmt, notifyStmt, endOnStmt],
      Fails grammar .free (.rule r) ('x' :: ' ' :: '=' :: ' ' :: row) := by
    simp only [List.forall_mem_cons]
    exact ⟨fun pos => .rule_failed (fails_event (fails ['='] (by decide)) pos),
      fun pos => .rule_failed (fails_event (fails ['='] (by decide)) pos),
      fun pos => .rule_failed (fails_event (fails ['='] (by decide)) pos),
      List.forall_mem_nil _⟩
  exact h.choice _ rfl (List.forall_mem_map.2 (List.forall_mem_append.2 ⟨hwords, hevents⟩))

theorem reads_block {stmt : Stmt}
    (h : Reads .free statement chars [' ', '\x7d'] [.stmt stmt]) (hclear : Clear chars) :
    Reads .free (.rule block) ('\x7b' :: ' ' :: chars) [] [.stmt (.block span [stmt])] := by
  have hclose : Clear ['\x7d'] := clear_append ['\x7d'] (by decide)
  have hstop : Fails grammar .free statement ['\x7d'] := fails ['\x7d'] (by decide)
  have hbody : Reads .free (body block) ('\x7b' :: ' ' :: chars) [] [.stmt stmt] :=
    .seq (.text ['\x7b']) ⟨_, hclear.gap_space,
      .seq (.star h (.stop hclose.gap_space hstop)) ⟨_, hclose.gap_space, .text ['\x7d']⟩⟩
  exact .rule hbody Part.combines_block (by decide)

theorem reads_functionDef {stmt : Stmt}
    (h : Reads .free (.rule block) ('\x7b' :: chars) [] [.stmt (.block span [stmt])]) :
    Reads .free (.rule functionDef) ('f' :: '(' :: ')' :: ' ' :: '\x7b' :: chars) []
      [.function ⟨"f", .none, [], [stmt], .none⟩] := by
  have hname : IsIdentifier "f" := by decide
  have hends : WordEnds ('(' :: ')' :: ' ' :: '\x7b' :: chars) :=
    (tokenEnds_cons (by decide) (by decide)).1
  have hident : Reads .free (.rule ident) ('f' :: '(' :: ')' :: ' ' :: '\x7b' :: chars)
      ('(' :: ')' :: ' ' :: '\x7b' :: chars) [.name ⟨"f", .none⟩] :=
    reads_name (.inl rfl) hname.1 (takes_ident hname hends) (by decide)
  have hclose : Clear (')' :: ' ' :: '\x7b' :: chars) := stops_close.clear
  have hparams : Reads .free (.rule params) (')' :: ' ' :: '\x7b' :: chars)
      (')' :: ' ' :: '\x7b' :: chars) [.params []] :=
    .rule (.opt_none (fails [')'] (by decide))) Part.combines_noParams (by decide)
  have hopen : Clear ('\x7b' :: chars) := clear_append ['\x7b'] (by decide)
  have hbody : Reads .free (body functionDef) ('f' :: '(' :: ')' :: ' ' :: '\x7b' :: chars) []
      [.name ⟨"f", .none⟩, .params [], .stmt (.block span [stmt])] :=
    .seq hident ⟨_, clear_parenthesis.gap, .seq (.text ['(']) ⟨_, hclose.gap,
      .seq hparams ⟨_, hclose.gap, .seq (.text [')']) ⟨_, hopen.gap_space, h⟩⟩⟩⟩
  exact .rule hbody Part.combines_functionDef (by decide)

theorem reads_file {f : Function} (h : Reads .free (.rule functionDef) ('f' :: chars) []
    [.function f]) :
    Reads .free (.rule file) ('f' :: chars) [] [.script ⟨[], none, [f]⟩] := by
  have hclear : Clear ('f' :: chars) := clear_append ['f'] (by decide)
  have hitem : Reads .free topItem ('f' :: chars) [] [.function f] :=
    .alt_right (fails ['f'] (by decide)) (.alt_right (fails ['f'] (by decide)) h)
  have hstop : Fails grammar .free topItem [] := fun _ => .of_outcome (n := 99) rfl (by simp)
  have hbody : Reads .free (body file) ('f' :: chars) [] [.function f, .mark] :=
    .seq (.text []) ⟨_, hclear.gap, .seq (.star hitem (.stop clear_nil.gap hstop))
      ⟨_, clear_nil.gap, reads_ending⟩⟩
  exact .rule hbody Part.combines_file (by decide)

theorem parse_of_reads {source : String} {script : Script}
    (h : Reads .free (.rule file) source.toList [] [.script script]) :
    ∃ script', parse source = .ok script' ∧ script'.bare = script.bare := by
  obtain ⟨pos, trees, read, hyields, htrees, _ | ⟨hlike, _ | _⟩⟩ := h 0
  have .script hbare := hlike
  have hrun : (grammar.run .file source.toList).1 = .matched trees ⟨pos, []⟩ := by
    have hforgets : (grammar.run .file source.toList).1
        = outcome grammar (depthFor source.toList.length) (.rule file) .free ⟨0, source.toList⟩ :=
      (forgets grammar _).once _ _ _ _
    have hdone := run_ne_exhausted source.toList
    rw [hforgets] at hdone ⊢
    exact hyields.eq_of_outcome hdone
  exact ⟨_, parseChars_of_means hrun htrees, hbare⟩

end Script

/-! ## The text of an assignment -/

theorem Expr.tokens_ne_nil {e : Expr} (h : e.Writable) : e.tokens ≠ [] := by
  cases e with
  | float => exact h.elim
  | bool _ value => cases value <;> exact List.cons_ne_nil _ _
  | functionRef _ path => cases path <;> exact List.cons_ne_nil _ _
  | call _ _ thread callee args =>
      have hcall : callTokens thread callee.tokens (tokensOfArgs args) ≠ [] :=
        List.append_ne_nil_of_right_ne_nil _ (List.cons_ne_nil _ _)
      exact List.append_ne_nil_of_right_ne_nil _ hcall
  | _ => exact List.cons_ne_nil _ _

theorem lead_eq_intercalate {tokens : List (List Char)} (h : tokens ≠ []) :
    Script.lead tokens = ' ' :: [' '].intercalate tokens := by
  induction tokens with
  | nil => exact absurd rfl h
  | cons token tokens ih =>
      cases tokens with
      | nil => simp [Script.lead]
      | cons => simpa [Script.lead] using ih (List.cons_ne_nil _ _)

def Expr.assigned (e : Expr) : String := "f() \x7b x = " ++ e.written ++ "; \x7d"

/-- An expression that is written down with every operand in parentheses is read back as it was, the
places of its parts apart. -/
theorem parse_assigned (e : Expr) (h : e.Writable) :
    ∃ script, Script.parse e.assigned = .ok script ∧
      script.bare = ⟨[], none,
        [⟨"f", .none, [], [.assign .none (.ident .none "x") .assign e.bare], .none⟩]⟩ := by
  have htext : e.assigned.toList = 'f' :: '(' :: ')' :: ' ' :: '\x7b' :: ' ' :: 'x' :: ' ' :: '='
      :: ' ' :: ([' '].intercalate e.tokens ++ [';', ' ', '\x7d']) := by
    simp [Expr.assigned, Expr.written]
  have htail : Script.Tail [';', ' ', '\x7d'] [';', ' ', '\x7d'] := Script.tail_semicolon
  have hexpr := Script.readsExpr_tokens e h _ _ htail
  rw [lead_eq_intercalate (e.tokens_ne_nil h), List.cons_append] at hexpr
  have hstmt : Script.Reads .free Rule.statement _ _
      [.stmt (.assign .none (.ident .none "x") .assign e)] :=
    Script.reads_statement (Script.reads_assignment hexpr)
  have hblock : Script.Reads .free (.rule .block) _ _ [.stmt (.block .none _)] :=
    Script.reads_block hstmt (Script.clear_append ['x'] (by decide))
  have hfile := Script.reads_file (Script.reads_functionDef hblock)
  rw [← htext] at hfile
  exact Script.parse_of_reads hfile

theorem parse_assigned_methodCall :
    ∃ e : Expr, e.Writable ∧
      e.written = "( a ) thread [[ ( thread/b::c ) ]] ( ( - ( 1 ) ) , ( b::c ( ) ) )" ∧
      ∃ script, Script.parse e.assigned = .ok script ∧
        script.bare = ⟨[], none,
          [⟨"f", .none, [], [.assign .none (.ident .none "x") .assign e.bare], .none⟩]⟩ := by
  have hpath : IsPath "thread/b".toList := ⟨"thread".toList, ["b".toList], by decide, by decide⟩
  have hcall : IsPath "b".toList := ⟨"b".toList, [], by decide, by decide⟩
  have h : (Expr.call .none (some (.ident .none "a")) true
      (.pointer (.functionRef .none (some "thread/b") "c"))
      [.unary .none .neg (.int .none 1), .call .none none false (.far "b" "c") []]).Writable := by
    simp only [Expr.Writable, Callee.Writable, writableObject, writableArgs, Option.mem_some_iff,
      forall_eq']
    exact ⟨by decide, ⟨hpath, by decide⟩, by decide, ⟨trivial, ⟨hcall, by decide, by decide⟩,
      trivial⟩, trivial⟩
  exact ⟨_, h, by cbv, parse_assigned _ h⟩

end Gsc
