import Gsc.Proofs.Script.Tokens

/-! # Reading rows of tokens

`ReadsExpr` says that a row of tokens is read as an expression whatever may follow an expression.
There is one lemma for each way to write one.
-/

namespace Gsc

open Gsc.Peg
open Gsc.Peg.Pattern (lit)

namespace Script

open Rule

variable {s : Spacing} {e x y z : Expr} {span : Span} {part other : Part}
  {chars rest middle t k : List Char}

/-! ## What may follow an expression -/

/-- Nothing that stands here goes on an expression. -/
structure Stops (k : List Char) : Prop where
  clear : Clear k
  suffix : Fails grammar .free suffix k
  binary : Fails grammar .free binaryOperator k
  ternary : Fails grammar .free (.rule ternarySuffix) k
  args : Fails grammar .free (.rule callArgs) k

/-- Whether this shows at the first characters. -/
def stops (front : List Char) : Bool :=
  clear front && refuses grammar 99 suffix front && refuses grammar 99 binaryOperator front
    && refuses grammar 99 (.rule ternarySuffix) front && refuses grammar 99 (.rule callArgs) front

theorem stops_append (front : List Char) (h : stops front = true) : Stops (front ++ rest) := by
  simp only [stops, Bool.and_eq_true] at h
  obtain ⟨⟨⟨⟨hclear, hsuffix⟩, hbinary⟩, hternary⟩, hargs⟩ := h
  exact ⟨clear_append front hclear, fails front (by simp [hclear, hsuffix]),
    fails front (by simp [hclear, hbinary]), fails front (by simp [hclear, hternary]),
    fails front (by simp [hclear, hargs])⟩

/-- No name, path or number goes on here, and no path is followed by a name. -/
structure NameEnds (t : List Char) : Prop where
  ends : TokenEnds t
  colons : Fails grammar .compound (lit "::") t

/-- What follows an expression: its last token ends in front of `t`, and `k` stands behind the
blanks of `t`. -/
structure Tail (t k : List Char) : Prop extends NameEnds t where
  gap : Gap .free t k
  stops : Stops k

theorem nameEnds_cons {c : Char} (hc : isWordChar c = false) (hc' : c ∉ ['/', '\\', '.', ':']) :
    NameEnds (c :: rest) := by
  simp only [List.mem_cons, List.not_mem_nil, or_false, not_or] at hc'
  exact ⟨tokenEnds_cons hc (by simp [hc']), fails_tight [c] (by simp [refuses, lit, differ, hc'])⟩

theorem nameEnds_space : NameEnds (' ' :: rest) := nameEnds_cons (by decide) (by decide)

theorem tail_space (h : Stops k) : Tail (' ' :: k) k := ⟨nameEnds_space, h.clear.gap_space, h⟩

theorem tail_semicolon : Tail (';' :: rest) (';' :: rest) :=
  have h : Stops (';' :: rest) := stops_append [';'] (by decide)
  ⟨nameEnds_cons (by decide) (by decide), h.clear.gap, h⟩

/-! ## Rows of tokens -/

def lead (tokens : List (List Char)) : List Char := tokens.flatMap (' ' :: ·)

def parenthesized (tokens : List (List Char)) : List (List Char) :=
  ['('] :: (tokens ++ [[')']])

def ReadsExpr (tokens : List (List Char)) (e : Expr) : Prop :=
  ∀ t k, Tail t k → Next .free (.rule expr) (lead tokens ++ t) k [.expr e]

/-! ## Operands -/

theorem reads_operand (hclear : Clear chars) (hunary : Fails grammar .free unaryOperator chars)
    (hp : Reads .free primary chars t [part]) (hgap : Gap .free t k)
    (hk : Fails grammar .free suffix k) : Reads .free operand chars k [part] :=
  .seq (.star_none hunary) ⟨_, hclear.gap, .seq hp ⟨_, hgap, .star_none hk⟩⟩

theorem reads_operand_suffix (hclear : Clear chars)
    (hunary : Fails grammar .free unaryOperator chars)
    (hp : Reads .free primary chars middle [part]) (hs : Next .free suffix middle t [other])
    (hgap : Gap .free t k) (hk : Fails grammar .free suffix k) :
    Reads .free operand chars t [part, other] := by
  obtain ⟨start, hstart, hs⟩ := hs
  exact .seq (.star_none hunary) ⟨_, hclear.gap, .seq hp ⟨_, hstart, .star hs (.stop hgap hk)⟩⟩

/-- An operand that nothing goes on is an expression. -/
theorem reads_expr {parts : List Part} (h : Reads .free operand chars t parts)
    (hgap : Gap .free t k) (hk : Stops k) (hc : Part.Combines .expr parts (.expr e)) :
    Reads .free (.rule expr) chars k [.expr e] := by
  have hrow : Reads .free (body expr) chars k (parts ++ []) :=
    .seq h ⟨_, hgap, .seq (.star_none fun pos => .seq_failed_left (hk.binary pos))
      ⟨_, hk.clear.gap, .opt_none hk.ternary⟩⟩
  rw [List.append_nil] at hrow
  exact .rule hrow hc (by decide)

theorem reads_atom (hclear : Clear chars) (hunary : Fails grammar .free unaryOperator chars)
    (hp : Reads .free primary chars t [part]) (hi : part.item? = some (.operand e))
    (ht : Tail t k) : Next .free (.rule expr) (' ' :: chars) k [.expr e] :=
  ⟨chars, hclear.gap_space,
    reads_expr (reads_operand hclear hunary hp ht.gap ht.stops.suffix) ht.stops.clear.gap ht.stops
      (Part.combines_operand hi)⟩

/-! ## Parentheses and vectors -/

theorem clear_parenthesis : Clear ('(' :: rest) := clear_append ['('] (by decide)

theorem lead_parenthesized (tokens : List (List Char)) :
    lead (parenthesized tokens) ++ t = ' ' :: '(' :: (lead tokens ++ ' ' :: ')' :: t) := by
  simp [lead, parenthesized]

theorem stops_close : Stops (')' :: t) := stops_append [')'] (by decide)

theorem stops_comma : Stops (',' :: t) := stops_append [','] (by decide)

theorem reads_parenthesis {tokens : List (List Char)} (h : ReadsExpr tokens e) :
    Reads .free (.rule parenOrVector) ('(' :: (lead tokens ++ ' ' :: ')' :: t)) t
      [.item (.operand e)] := by
  obtain ⟨start, hgap, hexpr⟩ := h _ _ (tail_space (stops_close (t := t)))
  have hclear := stops_close.clear (k := ')' :: t)
  have hbody : Reads .free (body parenOrVector) ('(' :: (lead tokens ++ ' ' :: ')' :: t)) t
      [.expr e] :=
    .seq (.text ['(']) ⟨_, hgap, .seq hexpr ⟨_, hclear.gap,
      .seq (.opt_none (fails [')'] (by decide))) ⟨_, hclear.gap, .text [')']⟩⟩⟩
  exact .rule hbody Part.combines_parenthesis (by decide)

theorem reads_primary_parenthesis
    (h : Reads .free (.rule parenOrVector) ('(' :: chars) t [part]) :
    Reads .free primary ('(' :: chars) t [part] :=
  .alt_right (fails ['('] (by decide))
    (.alt_right (fails ['('] (by decide)) (.alt_left h))

theorem unary_parenthesis : Fails grammar .free unaryOperator ('(' :: chars) :=
  fails ['('] (by decide)

theorem reads_operand_parenthesis {tokens : List (List Char)} (h : ReadsExpr tokens e)
    (hgap : Gap .free t k) (hk : Fails grammar .free suffix k) :
    Reads .free operand ('(' :: (lead tokens ++ ' ' :: ')' :: t)) k [.item (.operand e)] :=
  reads_operand clear_parenthesis unary_parenthesis
    (reads_primary_parenthesis (reads_parenthesis h)) hgap hk

theorem ReadsExpr.inParentheses {tokens : List (List Char)} (h : ReadsExpr tokens e) :
    ReadsExpr (parenthesized tokens) e := by
  intro t k ht
  rw [lead_parenthesized]
  exact reads_atom clear_parenthesis unary_parenthesis
    (reads_primary_parenthesis (reads_parenthesis h)) rfl ht

theorem ReadsExpr.vector {xs ys zs : List (List Char)} (hx : ReadsExpr xs x)
    (hy : ReadsExpr ys y) (hz : ReadsExpr zs z) :
    ReadsExpr (['('] :: (parenthesized xs ++ [','] :: (parenthesized ys
      ++ [','] :: (parenthesized zs ++ [[')']])))) (.vector span x y z) := by
  intro t k ht
  have htext : lead (['('] :: (parenthesized xs ++ [','] :: (parenthesized ys
      ++ [','] :: (parenthesized zs ++ [[')']])))) ++ t
      = ' ' :: '(' :: (lead (parenthesized xs) ++ ' ' :: ',' ::
          (lead (parenthesized ys) ++ ' ' :: ',' ::
            (lead (parenthesized zs) ++ ' ' :: ')' :: t))) := by
    simp [lead]
  rw [htext]
  obtain ⟨startX, hgapX, hx⟩ := hx.inParentheses _ _ (tail_space stops_comma)
  obtain ⟨startY, hgapY, hy⟩ := hy.inParentheses _ _ (tail_space stops_comma)
  obtain ⟨startZ, hgapZ, hz⟩ := hz.inParentheses _ _ (tail_space (stops_close (t := t)))
  have hrest : Reads .free (.opt _) _ (')' :: t) [.expr y, .expr z] :=
    .opt (.seq (.text [',']) ⟨_, hgapY, .seq hy ⟨_, stops_comma.clear.gap,
      .seq (.text [',']) ⟨_, hgapZ, hz⟩⟩⟩)
  have hbody : Reads .free (body parenOrVector) _ t [.expr x, .expr y, .expr z] :=
    .seq (.text ['(']) ⟨_, hgapX, .seq hx ⟨_, stops_comma.clear.gap,
      .seq hrest ⟨_, stops_close.clear.gap, .text [')']⟩⟩⟩
  exact reads_atom clear_parenthesis unary_parenthesis
    (reads_primary_parenthesis (.rule hbody Part.combines_vector (by decide))) rfl ht

/-! ## Operators -/

theorem reads_unaryOperator (op : UnaryOp) :
    Reads .free unaryOperator (op.symbol.toList ++ ' ' :: rest) (' ' :: rest)
      [.item (.before op span)] := by
  cases op <;>
    exact fun pos => ⟨_, _, _, .of_outcome (n := 9) rfl (by simp),
      .cons (.node .nil (.unary _)) .nil, .cons .before .nil⟩

theorem clear_unaryOperator (op : UnaryOp) : Clear (op.symbol.toList ++ rest) := by
  cases op <;> exact clear_append _ (by decide)

theorem ReadsExpr.unary {op : UnaryOp} {tokens : List (List Char)} (h : ReadsExpr tokens e) :
    ReadsExpr (op.symbol.toList :: parenthesized tokens) (.unary span op e) := by
  intro t k ht
  have htext : lead (op.symbol.toList :: parenthesized tokens) ++ t
      = ' ' :: (op.symbol.toList ++ ' ' :: '(' :: (lead tokens ++ ' ' :: ')' :: t)) := by
    simp [lead, parenthesized]
  rw [htext]
  have hprimary := reads_primary_parenthesis (reads_parenthesis (t := t) h)
  have hoperand : Reads .free operand
      (op.symbol.toList ++ ' ' :: '(' :: (lead tokens ++ ' ' :: ')' :: t)) k
      [.item (.before op span), .item (.operand e)] :=
    .seq (.star (reads_unaryOperator op) (.stop clear_parenthesis.gap_space unary_parenthesis))
      ⟨_, clear_parenthesis.gap_space,
        .seq hprimary ⟨_, ht.gap, .star_none ht.stops.suffix⟩⟩
  exact ⟨_, (clear_unaryOperator op).gap_space,
    reads_expr hoperand ht.stops.clear.gap ht.stops (Part.combines_unaryRow rfl)⟩

theorem reads_binaryOperator (op : BinaryOp) :
    Reads .free binaryOperator (op.symbol.toList ++ ' ' :: rest) (' ' :: rest)
      [.item (.between op)] := by
  cases op <;>
    exact fun pos => ⟨_, _, _, .of_outcome (n := 24) rfl (by simp),
      .cons (.node .nil (.binary _)) .nil, .cons .between .nil⟩

theorem front_binaryOperator (op : BinaryOp) :
    (clear (op.symbol.toList ++ [' '])
      && refuses grammar 99 suffix (op.symbol.toList ++ [' '])) = true := by
  have hall : (binaryOrder.all fun op => clear (op.symbol.toList ++ [' '])
      && refuses grammar 99 suffix (op.symbol.toList ++ [' '])) = true := by decide
  exact List.all_eq_true.1 hall op (by cases op <;> simp [binaryOrder])

theorem clear_binaryOperator (op : BinaryOp) : Clear (op.symbol.toList ++ ' ' :: rest) := by
  have h : Clear (op.symbol.toList ++ [' '] ++ rest) :=
    clear_append _ (Bool.and_eq_true_iff.1 (front_binaryOperator op)).1
  rwa [List.append_assoc] at h

theorem suffix_binaryOperator (op : BinaryOp) :
    Fails grammar .free suffix (op.symbol.toList ++ ' ' :: rest) := by
  have h : Fails grammar .free suffix (op.symbol.toList ++ [' '] ++ rest) :=
    fails _ (front_binaryOperator op)
  rwa [List.append_assoc] at h

theorem ReadsExpr.binary {op : BinaryOp} {xs ys : List (List Char)} (hx : ReadsExpr xs x)
    (hy : ReadsExpr ys y) :
    ReadsExpr (parenthesized xs ++ op.symbol.toList :: parenthesized ys)
      (.binary span x op y) := by
  intro t k ht
  have htext : lead (parenthesized xs ++ op.symbol.toList :: parenthesized ys) ++ t
      = ' ' :: '(' :: (lead xs ++ ' ' :: ')' :: ' ' ::
          (op.symbol.toList ++ ' ' :: '(' :: (lead ys ++ ' ' :: ')' :: t))) := by
    simp [lead, parenthesized]
  rw [htext]
  have hright := reads_operand_parenthesis hy ht.gap ht.stops.suffix
  have hpair : Reads .free (.seq binaryOperator operand) _ k
      [.item (.between op), .item (.operand y)] :=
    .seq (reads_binaryOperator op) ⟨_, clear_parenthesis.gap_space, hright⟩
  have hstop : Fails grammar .free (.seq binaryOperator operand) k :=
    fun pos => .seq_failed_left (ht.stops.binary pos)
  have hsuffix : Fails grammar .free suffix
      (op.symbol.toList ++ ' ' :: '(' :: (lead ys ++ ' ' :: ')' :: t)) := suffix_binaryOperator op
  have hleft := reads_operand_parenthesis hx (clear_binaryOperator op).gap_space hsuffix
  have hrow : Reads .free (body expr) _ k
      [.item (.operand x), .item (.between op), .item (.operand y)] :=
    .seq hleft ⟨_, (clear_binaryOperator op).gap,
      .seq (.star hpair (.stop ht.stops.clear.gap hstop))
        ⟨_, ht.stops.clear.gap, .opt_none ht.stops.ternary⟩⟩
  exact ⟨_, clear_parenthesis.gap_space, .rule hrow (Part.combines_binaryRow rfl rfl) (by decide)⟩

theorem ReadsExpr.ternary {xs ys zs : List (List Char)} (hx : ReadsExpr xs x)
    (hy : ReadsExpr ys y) (hz : ReadsExpr zs z) :
    ReadsExpr (parenthesized xs ++ ['?'] :: (parenthesized ys
      ++ [':'] :: parenthesized zs)) (.ternary span x y z) := by
  intro t k ht
  have htext : lead (parenthesized xs ++ ['?'] :: (parenthesized ys
      ++ [':'] :: parenthesized zs)) ++ t
      = ' ' :: '(' :: (lead xs ++ ' ' :: ')' :: ' ' :: '?' ::
          (lead (parenthesized ys) ++ ' ' :: ':' ::
            (lead (parenthesized zs) ++ t))) := by
    simp [lead, parenthesized]
  rw [htext]
  have hcolon : Stops (':' :: (lead (parenthesized zs) ++ t)) := by
    rw [lead_parenthesized]
    exact stops_append [':', ' '] (by decide)
  obtain ⟨startY, hgapY, hy⟩ := hy.inParentheses _ _ (tail_space hcolon)
  obtain ⟨startZ, hgapZ, hz⟩ := hz.inParentheses _ _ ht
  have hbranches : Reads .free (.rule ternarySuffix) _ k [.choice y z] :=
    .rule (.seq (.text ['?']) ⟨_, hgapY, .seq hy ⟨_, hcolon.clear.gap,
      .seq (.text [':']) ⟨_, hgapZ, hz⟩⟩⟩) Part.combines_ternarySuffix (by decide)
  have hmark : Clear ('?' :: (lead (parenthesized ys) ++ ' ' :: ':' ::
      (lead (parenthesized zs) ++ t))) := clear_append ['?'] (by decide)
  have hcondition := reads_operand_parenthesis hx hmark.gap_space (fails ['?'] (by decide))
  have hrow : Reads .free (body expr) _ k [.item (.operand x), .choice y z] :=
    .seq hcondition ⟨_, hmark.gap,
      .seq (.star_none (fails ['?'] (by decide))) ⟨_, hmark.gap, .opt hbranches⟩⟩
  exact ⟨_, clear_parenthesis.gap_space, .rule hrow (Part.combines_ternaryRow rfl) (by decide)⟩

/-! ## Members and subscripts -/

/-- An expression in parentheses with something behind it. -/
theorem next_suffix {tokens : List (List Char)} (h : ReadsExpr tokens x)
    (hs : Next .free suffix middle t [other]) (ht : Tail t k)
    (hc : Part.Combines .expr [.item (.operand x), other] (.expr e)) :
    Next .free (.rule expr) (lead (parenthesized tokens) ++ middle) k [.expr e] := by
  rw [lead_parenthesized]
  have hoperand := reads_operand_suffix clear_parenthesis unary_parenthesis
    (reads_primary_parenthesis (reads_parenthesis h)) hs ht.gap ht.stops.suffix
  exact ⟨_, clear_parenthesis.gap_space, reads_expr hoperand ht.gap ht.stops hc⟩

theorem clear_nameChar {c : Char} (h : isNameChar c = true) : Clear (c :: rest) :=
  clear_append [c] (forall_nameChar (fun c => clear [c]) (by decide) h)

theorem clear_name {word : List Char} (h : isName word = true) : Clear (word ++ rest) := by
  cases word with
  | nil => cases h
  | cons c word => exact clear_nameChar (isNameChar_of_isName h c List.mem_cons_self)

theorem ReadsExpr.field {tokens : List (List Char)} {name : String} (h : ReadsExpr tokens e)
    (hn : isName name.toList = true) :
    ReadsExpr (parenthesized tokens ++ [['.'], name.toList]) (.field span e name) := by
  intro t k ht
  have htext : lead (parenthesized tokens ++ [['.'], name.toList]) ++ t
      = lead (parenthesized tokens) ++ ' ' :: '.' :: ' ' :: (name.toList ++ t) := by
    simp [lead]
  rw [htext]
  have hname : Reads .free (.rule fieldName) (name.toList ++ t) t [.name ⟨name, span⟩] :=
    reads_name (.inr rfl) hn (takes_fieldName hn ht.ends.1) (by decide)
  have hmember : Reads .free (.rule member) ('.' :: ' ' :: (name.toList ++ t)) t
      [.item (.behind (.field name) span)] :=
    .rule (.seq (.text ['.']) ⟨_, (clear_name hn).gap_space, hname⟩) Part.combines_member
      (by decide)
  have hdot : Clear ('.' :: ' ' :: (name.toList ++ t)) := clear_append ['.'] (by decide)
  exact next_suffix h ⟨_, hdot.gap_space, .alt_left hmember⟩ ht (Part.combines_fieldRow rfl)

theorem stops_closeBracket : Stops (']' :: t) := stops_append [']'] (by decide)

theorem ReadsExpr.index {xs ys : List (List Char)} (hx : ReadsExpr xs x) (hy : ReadsExpr ys y) :
    ReadsExpr (parenthesized xs ++ ['['] :: (parenthesized ys ++ [[']']]))
      (.index span x y) := by
  intro t k ht
  have htext : lead (parenthesized xs ++ ['['] :: (parenthesized ys ++ [[']']])) ++ t
      = lead (parenthesized xs) ++ ' ' :: '[' ::
          (lead (parenthesized ys) ++ ' ' :: ']' :: t) := by
    simp [lead]
  rw [htext]
  obtain ⟨start, hgap, hy⟩ := hy.inParentheses _ _ (tail_space (stops_closeBracket (t := t)))
  have hindex : Reads .free (.rule Rule.index) _ t [.item (.behind (.index y) span)] :=
    .rule (.seq (.text ['[']) ⟨_, hgap, .seq hy ⟨_, stops_closeBracket.clear.gap, .text [']']⟩⟩)
      Part.combines_index (by decide)
  have hclear : Clear ('[' :: (lead (parenthesized ys) ++ ' ' :: ']' :: t)) :=
    clear_append ['['] (by decide)
  exact next_suffix hx
    ⟨_, hclear.gap_space, .alt_right (fails ['['] (by decide)) (.alt_left hindex)⟩ ht
    (Part.combines_indexRow rfl)

/-! ## Names in front of something else -/

variable {word : List Char} {name path : String}

theorem fails_far (hp : Takes grammar (body Rule.path) word t) (ht : NameEnds t) :
    Fails grammar s (.rule farCallee) (word ++ t) := by
  intro pos
  have hpath : Yields grammar .compound (.rule Rule.path) ⟨pos, word ++ t⟩ _ := .rule (hp pos)
  exact .rule_failed (hpath.seq_failed (.blank_tight (by decide)) (.seq_failed_left (ht.colons _)))

theorem fails_reference (hp : Takes grammar (body Rule.path) word t) (ht : NameEnds t) :
    Fails grammar s (.rule funcRef) (word ++ t) := by
  intro pos
  have hpath : Yields grammar .compound (.rule Rule.path) ⟨pos, word ++ t⟩ _ := .rule (hp pos)
  exact .rule_failed
    (hpath.opt.seq_failed (.blank_tight (by decide)) (.seq_failed_left (ht.colons _)))

theorem fails_thread (hw : isWord word = true) (ht : WordEnds t) (hne : word ≠ "thread".toList) :
    Fails grammar s (.rule (.word .threadWord)) (word ++ t) :=
  fun pos => .rule_failed (fails_wholeWord (by decide) hw ht hne.symm pos)

/-- What fails in front of a word because of its first character. -/
structure WordFront (chars : List Char) : Prop where
  clear : Clear chars
  unary : Fails grammar .free unaryOperator chars
  pointer : Fails grammar .free (.rule pointerCallee) chars
  member : Fails grammar .free (.rule Rule.member) chars
  index : Fails grammar .free (.rule Rule.index) chars
  parenthesis : Fails grammar .free (.rule parenOrVector) chars
  array : Fails grammar .free (.rule Rule.emptyArray) chars
  localized : Fails grammar .free (.rule Rule.localized) chars
  string : Fails grammar .free (.rule Rule.string) chars

theorem wordFront {c : Char} (h : isNameChar c = true) : WordFront (c :: rest) := by
  have hrules : ∀ p ∈ [unaryOperator, .rule pointerCallee, .rule Rule.member, .rule Rule.index,
      .rule parenOrVector, .rule Rule.emptyArray, .rule Rule.localized, .rule Rule.string],
      Fails grammar .free p (c :: rest) := by
    have hall := forall_nameChar (fun c => [unaryOperator, .rule pointerCallee,
      .rule Rule.member, .rule Rule.index, .rule parenOrVector, .rule Rule.emptyArray,
      .rule Rule.localized, .rule Rule.string].all
        fun p => clear [c] && refuses grammar 99 p [c]) (by decide) h
    exact fun p hp => fails [c] (List.all_eq_true.1 hall p hp)
  simp only [List.forall_mem_cons] at hrules
  obtain ⟨h₁, h₂, h₃, h₄, h₅, h₆, h₇, h₈, -⟩ := hrules
  exact ⟨clear_nameChar h, h₁, h₂, h₃, h₄, h₅, h₆, h₇, h₈⟩

theorem wordFront_name (h : isName word = true) : WordFront (word ++ rest) := by
  cases word with
  | nil => cases h
  | cons c word => exact wordFront (isNameChar_of_isName h c List.mem_cons_self)

theorem takes_path_of_isName (h : isName word = true) (ht : NameEnds t) :
    Takes grammar (body Rule.path) word t := by
  refine takes_path_of_word (isWord_of_nameChars (isNameChar_of_isName h)) ?_ ht.ends
  rintro rfl
  cases h

theorem reads_named (h : IsIdentifier name) (ht : NameEnds t) :
    Reads .free callee (name.toList ++ t) t [.callee (.named name)] := by
  have hname : Reads .free (.rule ident) (name.toList ++ t) t [.name ⟨name, .none⟩] :=
    reads_name (.inl rfl) h.1 (takes_ident h ht.ends.1) (by decide)
  exact .alt_right (wordFront_name h.1).pointer
    (.alt_right (fails_far (takes_path_of_isName h.1 ht) ht)
      (.rule hname Part.combines_named (by decide)))

/-! ## Words as expressions -/

theorem fails_literal (l : Literal) (hw : isWord word = true) (ht : WordEnds t)
    (hne : l.text.toList ≠ word) : Fails grammar s (.rule (.literal l)) (word ++ t) :=
  fun pos => .rule_failed (fails_wholeWord (by cases l <;> decide) hw ht hne pos)

/-- A word that names no function is not called. -/
theorem fails_call_of_not_callee (h : WordFront (word ++ t)) (hw : isWord word = true)
    (hne : word ≠ []) (ht : NameEnds t) (hthread : word ≠ "thread".toList)
    (hident : Fails grammar .free (.rule ident) (word ++ t)) :
    Fails grammar .free (.rule funcCall) (word ++ t) := by
  have hnone : Reads .free (.opt (.rule (Rule.word .threadWord))) (word ++ t) (word ++ t) [] :=
    .opt_none (fails_thread hw ht.ends.1 hthread)
  have hcallee : Fails grammar .free callee (word ++ t) := fun pos =>
    .alt_right (h.pointer pos) (.alt_right (fails_far (takes_path_of_word hw hne ht.ends) ht pos)
      (.rule_failed (hident pos)))
  have hform : Fails grammar .free callForm (word ++ t) :=
    hnone.then_fails h.clear.gap fun pos => .seq_failed_left (hcallee pos)
  exact fun pos => .rule_failed (hform pos)

/-- A name without arguments is not called. -/
theorem fails_call_of_identifier (h : IsIdentifier name) (ht : Tail t k) :
    Fails grammar .free (.rule funcCall) (name.toList ++ t) := by
  have hword := isWord_of_nameChars (isNameChar_of_isName h.1)
  have hthread : name.toList ≠ "thread".toList := fun hsame =>
    h.2 (String.toList_inj.1 hsame ▸ by decide)
  have hnone : Reads .free (.opt (.rule (Rule.word .threadWord))) (name.toList ++ t)
      (name.toList ++ t) [] := .opt_none (fails_thread hword ht.ends.1 hthread)
  have hform : Fails grammar .free callForm (name.toList ++ t) :=
    hnone.then_fails (wordFront_name h.1).clear.gap
      ((reads_named h ht.toNameEnds).then_fails ht.gap ht.stops.args)
  exact fun pos => .rule_failed (hform pos)

/-- The rules tried before words. -/
def wordless : List Rule := [funcCall, funcRef, parenOrVector, Rule.emptyArray, number,
  Rule.localized, Rule.string]

theorem fails_wordless (hn : isName word = true) (ht : NameEnds t)
    (hcall : Fails grammar .free (.rule funcCall) (word ++ t)) :
    ∀ r ∈ wordless, Fails grammar .free (.rule r) (word ++ t) := by
  have hfront : WordFront (word ++ t) := wordFront_name hn
  have hnumber : Fails grammar .free (.rule number) (word ++ t) := by
    cases word with
    | nil => cases hn
    | cons c word =>
        have hc : isNameStart c = true := (Bool.and_eq_true_iff.1 hn).1
        have hrefuses := forall_nameChar (fun c => !isNameStart c
          || clear [c] && refuses grammar 99 (.rule number) [c]) (by decide)
          (isNameChar_of_isNameStart hc)
        simp only [hc, Bool.not_true, Bool.false_or] at hrefuses
        exact fails [c] hrefuses
  simp only [wordless, List.forall_mem_cons]
  exact ⟨hcall, fails_reference (takes_path_of_isName hn ht) ht, hfront.parenthesis, hfront.array,
    hnumber, hfront.localized, hfront.string, List.forall_mem_nil _⟩

theorem primary_eq : primary = .choice (.rule funcCall)
    (wordless.tail.map Pattern.rule ++ Literal.all.map (fun l => Pattern.rule (.literal l))
      ++ [Pattern.rule ident]) :=
  rfl

theorem text_inj {l l' : Literal} : l.text = l'.text ↔ l = l' := by
  cases l <;> cases l' <;> simp [Literal.text]

theorem next_word {word : List Char} (h : WordFront (word ++ t))
    (hp : Reads .free primary (word ++ t) t [part]) (hi : part.item? = some (.operand e))
    (ht : Tail t k) : Next .free (.rule expr) (lead [word] ++ t) k [.expr e] := by
  have htext : lead [word] ++ t = ' ' :: (word ++ t) := by simp [lead]
  rw [htext]
  exact reads_atom h.clear h.unary hp hi ht

theorem ReadsExpr.literal (l : Literal) : ReadsExpr [l.text.toList] (Lexeme.ofLiteral span l) := by
  intro t k ht
  have hname : isName l.text.toList = true := by cases l <;> decide
  have hword := isWord_of_nameChars (isNameChar_of_isName hname)
  have hfront : WordFront (l.text.toList ++ t) := wordFront_name hname
  have hident : Fails grammar .free (.rule ident) (l.text.toList ++ t) :=
    fails_ident_of_keyword (by cases l <;> decide) ht.ends.1
  have hcall := fails_call_of_not_callee hfront hword (by cases l <;> decide) ht.toNameEnds
    (by cases l <;> decide) hident
  have hliteral : Reads .free (.rule (.literal l)) (l.text.toList ++ t) t
      [.item (.operand (Lexeme.ofLiteral span l))] :=
    .token (takes_wholeWord l.text ht.ends.1) rfl (by decide) fun span' =>
      Part.combines_literal l span' _ [] .nil
  obtain ⟨before, behind, hall, hnot⟩ :=
    List.eq_append_cons_of_mem (show l ∈ Literal.all by cases l <;> decide)
  have hprimary : Reads .free primary (l.text.toList ++ t) t
      [.item (.operand (Lexeme.ofLiteral span l))] := by
    rw [primary_eq]
    apply hliteral.choice
      (wordless.map Pattern.rule ++ before.map fun l => Pattern.rule (.literal l))
    · rw [hall]
      simp [wordless]
      rfl
    · simp only [List.forall_mem_append, List.forall_mem_map]
      refine ⟨fails_wordless hname ht.toNameEnds hcall, fun other hmem => ?_⟩
      refine fails_literal other hword ht.ends.1 fun hsame => hnot ?_
      rwa [← text_inj.1 (String.toList_inj.1 hsame)]
  exact next_word hfront hprimary rfl ht

theorem reads_identifier (h : IsIdentifier name) (ht : Tail t k) :
    Reads .free primary (name.toList ++ t) t [.name ⟨name, span⟩] := by
  have hword := isWord_of_nameChars (isNameChar_of_isName h.1)
  have hname : Reads .free (.rule ident) (name.toList ++ t) t [.name ⟨name, span⟩] :=
    reads_name (.inl rfl) h.1 (takes_ident h ht.ends.1) (by decide)
  rw [primary_eq]
  apply hname.choice
    (wordless.map Pattern.rule ++ Literal.all.map fun l => Pattern.rule (.literal l))
  · rfl
  · simp only [List.forall_mem_append, List.forall_mem_map]
    refine ⟨fails_wordless h.1 ht.toNameEnds (fails_call_of_identifier h ht), fun l _ => ?_⟩
    refine fails_literal l hword ht.ends.1 fun hsame => h.2 ?_
    rw [← String.toList_inj.1 hsame]
    cases l <;> decide

theorem ReadsExpr.ident (h : IsIdentifier name) : ReadsExpr [name.toList] (.ident span name) :=
  fun _ _ ht => next_word (wordFront_name h.1) (reads_identifier h ht) rfl ht

theorem exists_toDigits_eq_cons (n : Nat) :
    ∃ c chars, Nat.toDigits 10 n = c :: chars ∧ c.isDigit = true := by
  obtain ⟨c, chars, hdigits⟩ := List.exists_cons_of_ne_nil (Nat.toDigits_ne_nil (n := n) (b := 10))
  have hmem : c ∈ Nat.toDigits 10 n := by
    rw [hdigits]
    exact List.mem_cons_self
  exact ⟨c, chars, hdigits, Nat.isDigit_of_mem_toDigits (by decide) (by decide) hmem⟩

theorem wordFront_digits (n : Nat) : WordFront (Nat.toDigits 10 n ++ rest) := by
  obtain ⟨c, chars, hdigits, hc⟩ := exists_toDigits_eq_cons n
  rw [hdigits]
  exact wordFront (by simp [isNameChar, hc])

theorem fails_ident_digits (n : Nat) :
    Fails grammar .free (.rule Rule.ident) (Nat.toDigits 10 n ++ rest) := by
  obtain ⟨c, chars, hdigits, hc⟩ := exists_toDigits_eq_cons n
  have hrefuses := forall_nameChar (fun c => !c.isDigit
    || clear [c] && refuses grammar 99 (.rule Rule.ident) [c]) (by decide)
    (show isNameChar c = true by simp [isNameChar, hc])
  simp only [hc, Bool.not_true, Bool.false_or] at hrefuses
  rw [hdigits]
  exact fails [c] hrefuses

theorem ReadsExpr.number {n : Nat} (hn : n ≤ 9223372036854775807) :
    ReadsExpr [Nat.toDigits 10 n] (.int span (Int64.ofNat n)) := by
  intro t k ht
  have hword := isWord_digits n
  have hfront : WordFront (Nat.toDigits 10 n ++ t) := wordFront_digits n
  have hthread : Nat.toDigits 10 n ≠ "thread".toList := by
    intro hsame
    have hmem : 't' ∈ Nat.toDigits 10 n := by
      rw [hsame]
      decide
    exact absurd (Nat.isDigit_of_mem_toDigits (by decide) (by decide) hmem) (by decide)
  have hcall := fails_call_of_not_callee hfront hword Nat.toDigits_ne_nil ht.toNameEnds hthread
    (fails_ident_digits n)
  have hpath := takes_path_of_word hword Nat.toDigits_ne_nil ht.ends
  have hnumber : Reads .free (.rule Rule.number) (Nat.toDigits 10 n ++ t) t
      [.item (.operand (.int span (Int64.ofNat n)))] := reads_number hn ht.ends (by decide)
  exact next_word hfront (.alt_right hcall (.alt_right (fails_reference hpath ht.toNameEnds)
    (.alt_right hfront.parenthesis (.alt_right hfront.array (.alt_left hnumber))))) rfl ht

/-! ## Texts and empty arrays -/

theorem fails_rules (front : List Char) {rules : List Rule}
    (h : (rules.all fun r => clear front && refuses grammar 99 (.rule r) front) = true) :
    ∀ r ∈ rules, Fails grammar s (.rule r) (front ++ rest) :=
  fun r hr => fails front (List.all_eq_true.1 h r hr)

theorem ReadsExpr.text {value : String} : ReadsExpr [quote value.toList] (.text span value) := by
  intro t k ht
  have htext : lead [quote value.toList] ++ t = ' ' :: (quote value.toList ++ t) := by simp [lead]
  have hstring : Reads .free (.rule Rule.string) (quote value.toList ++ t) t
      [.text ⟨value, span⟩] := reads_string (by decide)
  have hbefore : ∀ r ∈ [funcCall, funcRef, parenOrVector, Rule.emptyArray, Rule.number,
      Rule.localized], Fails grammar .free (.rule r) (quote value.toList ++ t) :=
    fails_rules ['"'] (by decide)
  have hprimary : Reads .free primary (quote value.toList ++ t) t [.text ⟨value, span⟩] :=
    hstring.choice _ rfl (List.forall_mem_map.2 hbefore)
  rw [htext]
  exact reads_atom (clear_append ['"'] (by decide)) (fails ['"'] (by decide)) hprimary rfl ht

theorem ReadsExpr.localized {key : String} :
    ReadsExpr ['&' :: quote key.toList] (.localized span key) := by
  intro t k ht
  have htext : lead ['&' :: quote key.toList] ++ t = ' ' :: '&' :: (quote key.toList ++ t) := by
    simp [lead]
  have hlocalized : Reads .free (.rule Rule.localized) ('&' :: (quote key.toList ++ t)) t
      [.item (.operand (.localized span key))] :=
    .rule (.seq (.text ['&']) ⟨_, gap_tight (by decide), reads_string (by decide)⟩)
      (Part.combines_localized (s := ⟨key, span⟩)) (by decide)
  have hbefore : ∀ r ∈ [funcCall, funcRef, parenOrVector, Rule.emptyArray, Rule.number],
      Fails grammar .free (.rule r) ('&' :: (quote key.toList ++ t)) :=
    fails_rules ['&'] (by decide)
  have hprimary : Reads .free primary ('&' :: (quote key.toList ++ t)) t
      [.item (.operand (.localized span key))] :=
    hlocalized.choice _ rfl (List.forall_mem_map.2 hbefore)
  rw [htext]
  exact reads_atom (clear_append ['&'] (by decide)) (fails ['&'] (by decide)) hprimary rfl ht

theorem ReadsExpr.emptyArray : ReadsExpr [['['], [']']] (.emptyArray span) := by
  intro t k ht
  have htext : lead [['['], [']']] ++ t = ' ' :: '[' :: ' ' :: ']' :: t := by simp [lead]
  have harray : Reads .free (.rule Rule.emptyArray) ('[' :: ' ' :: ']' :: t) t
      [.item (.operand (.emptyArray span))] :=
    .rule (.seq (.text ['[']) ⟨_, stops_closeBracket.clear.gap_space, .text [']']⟩)
      Part.combines_emptyArray (by decide)
  have hbefore : ∀ r ∈ [funcCall, funcRef, parenOrVector],
      Fails grammar .free (.rule r) ('[' :: ' ' :: ']' :: t) :=
    fails_rules ['[', ' '] (by decide)
  have hprimary : Reads .free primary ('[' :: ' ' :: ']' :: t) t
      [.item (.operand (.emptyArray span))] :=
    harray.choice _ rfl (List.forall_mem_map.2 hbefore)
  rw [htext]
  exact reads_atom (clear_append ['['] (by decide)) (fails ['['] (by decide)) hprimary rfl ht

end Script

end Gsc
