import Gsc.Proofs.Script.Productions

/-! # Reading calls and references

Calls are told from references, names and subscripts by what stands in front of their arguments.
-/

namespace Gsc

open Gsc.Peg
open Gsc.Peg.Pattern (lit)

namespace Script

open Rule

variable {s : Spacing} {e : Expr} {span : Span} {rest t k : List Char} {name path : String}

/-! ## Names of other scripts -/

theorem exists_first {chars : List Char} (h : IsPath chars) :
    ∃ first more, chars = first ++ more ∧ isSegment first = true ∧
      chars.takeWhile (· ≠ '/') = first ∧
        (more = [] ∨ ∃ c rest, more = '/' :: c :: rest ∧ isNameChar c = true) := by
  obtain ⟨first, segments, hsegments, rfl⟩ := h
  rw [List.forall_mem_cons] at hsegments
  rw [intercalate_slash]
  have hno : ∀ c ∈ first, decide (c ≠ '/') = true := by
    intro c hc
    exact forall_nameChar (fun c => decide (c ≠ '/')) (by decide)
      (isNameChar_of_isSegment hsegments.1 c hc)
  refine ⟨first, _, rfl, hsegments.1, ?_, ?_⟩
  · rw [List.takeWhile_append_of_pos hno]
    cases segments <;> simp
  · cases segments with
    | nil => exact .inl rfl
    | cons segment segments =>
        have hsegment := hsegments.2 segment List.mem_cons_self
        cases segment with
        | nil => cases hsegment
        | cons c segment =>
            exact .inr ⟨c, _, rfl, isNameChar_of_isSegment hsegment c List.mem_cons_self⟩

theorem wordFront_path (h : IsPath path.toList) : WordFront (path.toList ++ rest) := by
  obtain ⟨first, more, hpath, hfirst, -⟩ := exists_first h
  cases first with
  | nil => cases hfirst
  | cons c first =>
      rw [hpath]
      exact wordFront (isNameChar_of_isSegment hfirst c List.mem_cons_self)

def qualified (path name : String) : List Char := path.toList ++ ':' :: ':' :: name.toList

theorem reads_path_colons (h : IsPath path.toList) (hs : s ≠ .atomic) :
    Reads s (.rule Rule.path) (path.toList ++ ':' :: ':' :: rest) (':' :: ':' :: rest)
      [.path ⟨path, .none⟩] :=
  reads_path h (tokenEnds_cons (by decide) (by decide)) hs

theorem reads_colons (h : IsIdentifier name) (ht : WordEnds t) :
    Reads .compound (.seq (lit "::") (.rule Rule.ident)) (':' :: ':' :: (name.toList ++ t)) t
      [.name ⟨name, .none⟩] :=
  .seq (.text [':', ':'])
    ⟨_, gap_tight (by decide), reads_name (.inl rfl) h.1 (takes_ident h ht) (by decide)⟩

theorem reads_far (hp : IsPath path.toList) (hn : IsIdentifier name) (ht : WordEnds t) :
    Reads .free callee (qualified path name ++ t) t [.callee (.far path name)] := by
  rw [qualified, List.append_assoc]
  have hfar : Reads .free (.rule farCallee) (path.toList ++ ':' :: ':' :: (name.toList ++ t)) t
      [.callee (.far path name)] :=
    .rule (.seq (reads_path_colons hp (by decide)) ⟨_, gap_tight (by decide), reads_colons hn ht⟩)
      Part.combines_far (by decide)
  exact .alt_right (wordFront_path hp).pointer (.alt_left hfar)

/-- The first segment of a path decides whether `thread` seems to stand in front of a call. -/
theorem fails_thread_path (hp : IsPath path.toList)
    (hfirst : path.toList.takeWhile (· ≠ '/') ≠ "thread".toList) :
    Fails grammar s (.rule (.word .threadWord)) (qualified path name ++ t) := by
  obtain ⟨first, more, hpath, hsegment, htake, hmore⟩ := exists_first hp
  rw [qualified, hpath, List.append_assoc, List.append_assoc]
  apply fails_thread (isWord_of_nameChars (isNameChar_of_isSegment hsegment))
  · rcases hmore with rfl | ⟨c, rest, rfl, -⟩
    · exact (tokenEnds_cons (by decide) (by decide)).1
    · intro d hd
      cases hd
      decide
  · rwa [← htake]

theorem reads_thread (ht : WordEnds t) :
    Reads .free (.rule (Rule.word .threadWord)) ("thread".toList ++ t) t [.thread] :=
  .token (takes_wholeWord "thread" ht) rfl (by decide) fun span =>
    Part.combines_thread span _ [] .nil

/-- What is left of a path behind its first segment begins no callee. -/
theorem behind_segment {more : List Char} (rest : List Char)
    (h : more = [] ∨ ∃ c rest, more = '/' :: c :: rest ∧ isNameChar c = true) :
    WordEnds (more ++ ':' :: ':' :: rest) ∧ Clear (more ++ ':' :: ':' :: rest) ∧
      Fails grammar .free callee (more ++ ':' :: ':' :: rest) := by
  rcases h with rfl | ⟨c, more, rfl, hc⟩
  · exact ⟨(tokenEnds_cons (by decide) (by decide)).1, clear_append [':'] (by decide),
      fails [':'] (by decide)⟩
  · have hfront := forall_nameChar (fun c => clear ['/', c] && refuses grammar 99 callee ['/', c])
      (by decide) hc
    refine ⟨?_, clear_append ['/', c] (Bool.and_eq_true_iff.1 hfront).1, fails ['/', c] hfront⟩
    intro d hd
    cases hd
    decide

theorem fails_call_of_path (hp : IsPath path.toList) (hn : IsIdentifier name) (ht : Tail t k) :
    Fails grammar .free (.rule funcCall) (qualified path name ++ t) := by
  suffices h : Fails grammar .free callForm (qualified path name ++ t) from
    fun pos => .rule_failed (h pos)
  by_cases hfirst : path.toList.takeWhile (· ≠ '/') = "thread".toList
  · -- the first segment is taken for the word, and no callee begins behind it
    obtain ⟨first, more, hpath, hsegment, htake, hmore⟩ := exists_first hp
    obtain ⟨hends, hclear, hcallee⟩ := behind_segment (name.toList ++ t) hmore
    rw [qualified, hpath, ← htake, hfirst, List.append_assoc, List.append_assoc]
    exact (reads_thread hends).opt.then_fails hclear.gap fun pos => .seq_failed_left (hcallee pos)
  · have hnone : Reads .free (.opt (.rule (Rule.word .threadWord))) (qualified path name ++ t)
        (qualified path name ++ t) [] := .opt_none (fails_thread_path hp hfirst)
    have hclear : Clear (qualified path name ++ t) := by
      rw [qualified, List.append_assoc]
      exact (wordFront_path hp).clear
    exact hnone.then_fails hclear.gap
      ((reads_far hp hn ht.ends.1).then_fails ht.gap ht.stops.args)

theorem ReadsExpr.reference (h : IsIdentifier name) :
    ReadsExpr [':' :: ':' :: name.toList] (.functionRef span none name) := by
  intro t k ht
  have htext : lead [':' :: ':' :: name.toList] ++ t = ' ' :: ':' :: ':' :: (name.toList ++ t) := by
    simp [lead]
  have hreference : Reads .free (.rule funcRef) (':' :: ':' :: (name.toList ++ t)) t
      [.item (.operand (.functionRef span none name))] :=
    .rule (.seq (.opt_none (fails [':'] (by decide)))
      ⟨_, gap_tight (by decide), reads_colons h ht.ends.1⟩) Part.combines_reference (by decide)
  have hprimary : Reads .free primary (':' :: ':' :: (name.toList ++ t)) t
      [.item (.operand (.functionRef span none name))] :=
    .alt_right (fails [':'] (by decide)) (.alt_left hreference)
  rw [htext]
  exact reads_atom (clear_append [':'] (by decide)) (fails [':'] (by decide)) hprimary rfl ht

theorem ReadsExpr.farReference (hp : IsPath path.toList) (hn : IsIdentifier name) :
    ReadsExpr [qualified path name] (.functionRef span (some path) name) := by
  intro t k ht
  have hreference : Reads .free (.rule funcRef) (qualified path name ++ t) t
      [.item (.operand (.functionRef span (some path) name))] := by
    rw [qualified, List.append_assoc]
    exact .rule (.seq (.opt (reads_path_colons hp (by decide)))
      ⟨_, gap_tight (by decide), reads_colons hn ht.ends.1⟩) Part.combines_farReference (by decide)
  have hfront : WordFront (qualified path name ++ t) := by
    rw [qualified, List.append_assoc]
    exact wordFront_path hp
  exact next_word hfront (.alt_right (fails_call_of_path hp hn ht) (.alt_left hreference)) rfl ht

/-! ## Callees -/

/-- What fails in front of a call. -/
structure CallFront (chars : List Char) : Prop where
  clear : Clear chars
  unary : Fails grammar .free unaryOperator chars
  member : Fails grammar .free (.rule Rule.member) chars
  index : Fails grammar .free (.rule Rule.index) chars

theorem WordFront.call {chars : List Char} (h : WordFront chars) : CallFront chars :=
  ⟨h.clear, h.unary, h.member, h.index⟩

/-- The tokens are read as what is called, and none of them as `thread` if that is not written. -/
def ReadsCallee (thread : Bool) (tokens : List (List Char)) (c : Callee) : Prop :=
  ∀ t, NameEnds t → ∃ start, lead tokens ++ t = ' ' :: start ∧ CallFront start ∧
    Reads .free callee start t [.callee c] ∧
      (thread = false → Fails grammar .free (.rule (.word .threadWord)) start)

theorem ReadsCallee.named {thread : Bool} (h : IsIdentifier name) :
    ReadsCallee thread [name.toList] (.named name) := by
  intro t ht
  refine ⟨name.toList ++ t, by simp [lead], (wordFront_name h.1).call, reads_named h ht, ?_⟩
  intro _
  have hword := isWord_of_nameChars (isNameChar_of_isName h.1)
  exact fails_thread hword ht.ends.1 fun hsame => h.2 (String.toList_inj.1 hsame ▸ by decide)

theorem ReadsCallee.far {thread : Bool} (hp : IsPath path.toList) (hn : IsIdentifier name)
    (hfirst : thread = false → path.toList.takeWhile (· ≠ '/') ≠ "thread".toList) :
    ReadsCallee thread [qualified path name] (.far path name) := by
  intro t ht
  have hfront : WordFront (qualified path name ++ t) := by
    rw [qualified, List.append_assoc]
    exact wordFront_path hp
  exact ⟨_, by simp [lead], hfront.call, reads_far hp hn ht.ends.1,
    fun h => fails_thread_path hp (hfirst h)⟩

/-- A bracket in front of a parenthesis begins no expression. -/
theorem fails_primary_bracket : Fails grammar .free primary ('[' :: ' ' :: '(' :: rest) := by
  have harray : Fails grammar .free (.rule Rule.emptyArray) ('[' :: ' ' :: '(' :: rest) := by
    have hopen : Reads .free (lit "[") ('[' :: ' ' :: '(' :: rest) (' ' :: '(' :: rest) [] :=
      .text ['[']
    exact fun pos => .rule_failed
      (hopen.then_fails clear_parenthesis.gap_space (fails ['('] (by decide)) pos)
  have hothers : ∀ r ∈ [funcCall, funcRef, parenOrVector, Rule.number, Rule.localized,
      Rule.string, Rule.ident] ++ Literal.all.map .literal,
      Fails grammar .free (.rule r) ('[' :: ' ' :: '(' :: rest) :=
    fails_rules ['[', ' '] (by decide)
  simp only [List.forall_mem_append, List.forall_mem_cons, List.forall_mem_map] at hothers
  obtain ⟨⟨hcall, href, hparen, hnumber, hlocalized, hstring, hident, -⟩, hliteral⟩ := hothers
  rw [primary_eq]
  apply fails_choice
  simp only [wordless, List.tail_cons, List.map_cons, List.map_nil, List.cons_append,
    List.nil_append, List.forall_mem_cons, List.forall_mem_append, List.forall_mem_map]
  exact ⟨hcall, href, hparen, harray, hnumber, hlocalized, hstring, hliteral, hident,
    List.forall_mem_nil _⟩

theorem fails_index_brackets :
    Fails grammar .free (.rule Rule.index) ('[' :: '[' :: ' ' :: '(' :: rest) := by
  have hclear : Clear ('[' :: ' ' :: '(' :: rest) := clear_append ['['] (by decide)
  have hunary : Fails grammar .free unaryOperator ('[' :: ' ' :: '(' :: rest) :=
    fails ['['] (by decide)
  have hoperand : Fails grammar .free operand ('[' :: ' ' :: '(' :: rest) :=
    (Reads.star_none hunary).then_fails hclear.gap
      fun pos => .seq_failed_left (fails_primary_bracket pos)
  have hexpr : Fails grammar .free (.rule expr) ('[' :: ' ' :: '(' :: rest) :=
    fun pos => .rule_failed (.seq_failed_left (hoperand pos))
  have hopen : Reads .free (lit "[") ('[' :: '[' :: ' ' :: '(' :: rest) ('[' :: ' ' :: '(' :: rest)
      [] := .text ['[']
  exact fun pos => .rule_failed
    (hopen.then_fails hclear.gap (fun pos => .seq_failed_left (hexpr pos)) pos)

theorem ReadsCallee.pointer {thread : Bool} {tokens : List (List Char)} (h : ReadsExpr tokens e) :
    ReadsCallee thread (['[', '['] :: (parenthesized tokens ++ [[']', ']']])) (.pointer e) := by
  intro t ht
  have htext : lead (['[', '['] :: (parenthesized tokens ++ [[']', ']']])) ++ t
      = ' ' :: '[' :: '[' :: (lead (parenthesized tokens) ++ ' ' :: ']' :: ']' :: t) := by
    simp [lead]
  refine ⟨_, htext, ?_, ?_, fun _ => fails ['['] (by decide)⟩
  · refine ⟨clear_append ['['] (by decide), fails ['['] (by decide), fails ['['] (by decide), ?_⟩
    rw [lead_parenthesized]
    exact fails_index_brackets
  · have hstops : Stops (']' :: ']' :: t) := stops_closeBracket
    obtain ⟨start, hgap, hexpr⟩ := h.inParentheses _ _ (tail_space hstops)
    have hpointer : Reads .free (.rule pointerCallee)
        ('[' :: '[' :: (lead (parenthesized tokens) ++ ' ' :: ']' :: ']' :: t)) t
        [.callee (.pointer e)] :=
      .rule (.seq (.text ['[', '[']) ⟨_, hgap, .seq hexpr
        ⟨_, stops_closeBracket.clear.gap, .text [']', ']']⟩⟩) Part.combines_pointer (by decide)
    exact .alt_left hpointer

/-! ## Arguments -/

def listed : List (List (List Char)) → List (List Char)
  | [] => []
  | tokens :: rest =>
    parenthesized tokens ++ rest.flatMap fun tokens => [','] :: parenthesized tokens

def furtherArgs (t : List Char) : List (List (List Char)) → List Char
  | [] => ')' :: t
  | tokens :: rest => ',' :: (lead (parenthesized tokens) ++ ' ' :: furtherArgs t rest)

theorem lead_further (rows : List (List (List Char))) :
    lead (rows.flatMap fun tokens => [','] :: parenthesized tokens) ++ ' ' :: ')' :: t
      = ' ' :: furtherArgs t rows := by
  induction rows with
  | nil => rfl
  | cons tokens rows ih =>
      rw [furtherArgs, ← ih]
      simp [lead]

theorem stops_further (rows : List (List (List Char))) : Stops (furtherArgs t rows) := by
  cases rows with
  | nil => exact stops_close
  | cons => exact stops_comma

variable {rows : List (List (List Char))} {es : List Expr}

theorem reads_furtherArg {tokens : List (List Char)} (h : ReadsExpr tokens e) :
    Reads .free (.seq (lit ",") (.rule expr)) (furtherArgs t (tokens :: rows))
      (furtherArgs t rows) [.expr e] := by
  obtain ⟨start, hgap, hexpr⟩ := h.inParentheses _ _ (tail_space (stops_further (t := t) rows))
  exact .seq (.text [',']) ⟨_, hgap, hexpr⟩

theorem fails_further : Fails grammar .free (.seq (lit ",") (.rule expr)) (')' :: t) :=
  fails [')'] (by decide)

theorem readsMore_args (h : List.Forall₂ ReadsExpr rows es) :
    ReadsMore .free (.seq (lit ",") (.rule expr)) (furtherArgs t rows) (')' :: t)
      (es.map .expr) := by
  induction h with
  | nil => exact .stop stops_close.clear.gap fails_further
  | cons he _ ih => exact .next ⟨_, (stops_further _).clear.gap, reads_furtherArg he⟩ ih

/-- The arguments after the first. -/
theorem reads_furtherArgs (h : List.Forall₂ ReadsExpr rows es) :
    Reads .free (.star (.seq (lit ",") (.rule expr))) (furtherArgs t rows) (')' :: t)
      (es.map .expr) := by
  cases h with
  | nil => exact .star_none fails_further
  | cons he hes => exact .star (reads_furtherArg he) (readsMore_args hes)

theorem reads_args (h : List.Forall₂ ReadsExpr rows es) :
    ∃ behind, lead (['('] :: (listed rows ++ [[')']])) ++ t = ' ' :: '(' :: behind ∧
      Reads .free (.rule callArgs) ('(' :: behind) t [.args es] := by
  have hclear := stops_close.clear (k := ')' :: t)
  cases h with
  | nil =>
      have hbody : Reads .free (body callArgs) ('(' :: ' ' :: ')' :: t) t [] :=
        .seq (.text ['(']) ⟨_, hclear.gap_space,
          .seq (.opt_none (fails [')'] (by decide))) ⟨_, hclear.gap, .text [')']⟩⟩
      exact ⟨' ' :: ')' :: t, by simp [lead, listed],
        .rule hbody (Part.combines_args []) (by decide)⟩
  | @cons tokens e rows es he hes =>
      have htext : lead (['('] :: (listed (tokens :: rows) ++ [[')']])) ++ t
          = ' ' :: '(' :: (lead (parenthesized tokens) ++ ' ' :: furtherArgs t rows) := by
        rw [← lead_further]
        simp [lead, listed]
      obtain ⟨start, hgap, hexpr⟩ := he.inParentheses _ _ (tail_space (stops_further (t := t) rows))
      have hlist : Reads .free (commaList (.rule expr)) start (')' :: t)
          ((e :: es).map .expr) :=
        .seq hexpr ⟨_, (stops_further rows).clear.gap, reads_furtherArgs hes⟩
      have hbody : Reads .free (body callArgs)
          ('(' :: (lead (parenthesized tokens) ++ ' ' :: furtherArgs t rows)) t
          ([] ++ ((e :: es).map .expr ++ [])) :=
        .seq (.text ['(']) ⟨_, hgap, .seq hlist.opt ⟨_, hclear.gap, .text [')']⟩⟩
      rw [List.nil_append, List.append_nil] at hbody
      exact ⟨_, htext, .rule hbody (Part.combines_args (e :: es)) (by decide)⟩

/-! ## Calls -/

def callTokens (thread : Bool) (callee : List (List Char)) (rows : List (List (List Char))) :
    List (List Char) :=
  (if thread then ["thread".toList] else []) ++ callee ++ ['('] :: (listed rows ++ [[')']])

theorem reads_callForm {thread : Bool} {tokens : List (List Char)} {c : Callee}
    (hc : ReadsCallee thread tokens c) (h : List.Forall₂ ReadsExpr rows es) :
    ∃ start, lead (callTokens thread tokens rows) ++ t = ' ' :: start ∧ CallFront start ∧
      Reads .free callForm start t (Part.callParts thread c es) := by
  obtain ⟨behind, hbehind, hargs⟩ := reads_args (t := t) h
  obtain ⟨start, hstart, hfront, hcallee, hthread⟩ := hc (' ' :: '(' :: behind) nameEnds_space
  have htext : lead tokens ++ (lead (['('] :: (listed rows ++ [[')']])) ++ t) = ' ' :: start := by
    rw [hbehind, hstart]
  have hcall : Reads .free (.seq callee (.rule callArgs)) start t [.callee c, .args es] :=
    .seq hcallee ⟨_, clear_parenthesis.gap_space, hargs⟩
  cases thread with
  | false =>
      refine ⟨start, ?_, hfront, .seq (.opt_none (hthread rfl)) ⟨_, hfront.clear.gap, hcall⟩⟩
      rw [← htext]
      simp [lead, callTokens]
  | true =>
      have hword : WordEnds (' ' :: start) := nameEnds_space.ends.1
      refine ⟨"thread".toList ++ ' ' :: start, ?_, ?_,
        .seq (reads_thread hword).opt ⟨_, hfront.clear.gap_space, hcall⟩⟩
      · rw [← htext]
        simp [lead, callTokens]
      · exact (wordFront (by decide)).call

theorem ReadsExpr.call {thread : Bool} {tokens : List (List Char)} {c : Callee}
    (hc : ReadsCallee thread tokens c) (h : List.Forall₂ ReadsExpr rows es) :
    ReadsExpr (callTokens thread tokens rows) (.call span none thread c es) := by
  intro t k ht
  obtain ⟨start, htext, hfront, hform⟩ := reads_callForm (t := t) hc h
  rw [htext]
  have hprimary : Reads .free primary start t [.item (.operand (.call span none thread c es))] :=
    .alt_left (.rule hform Part.combines_call (by decide))
  exact reads_atom hfront.clear hfront.unary hprimary rfl ht

theorem ReadsExpr.methodCall {thread : Bool} {object tokens : List (List Char)} {c : Callee}
    (ho : ReadsExpr object e) (hc : ReadsCallee thread tokens c)
    (h : List.Forall₂ ReadsExpr rows es) :
    ReadsExpr (parenthesized object ++ callTokens thread tokens rows)
      (.call span (some e) thread c es) := by
  intro t k ht
  have htokens : lead (parenthesized object ++ callTokens thread tokens rows) ++ t
      = lead (parenthesized object) ++ (lead (callTokens thread tokens rows) ++ t) := by
    simp [lead]
  obtain ⟨start, htext, hfront, hform⟩ := reads_callForm (t := t) hc h
  have hsuffix : Reads .free suffix start t [.item (.behind (.call thread c es) span)] :=
    .alt_right hfront.member
      (.alt_right hfront.index (.rule hform Part.combines_methodCall (by decide)))
  rw [htokens, htext]
  exact next_suffix ho ⟨_, hfront.clear.gap_space, hsuffix⟩ ht (Part.combines_callRow rfl)

end Script

end Gsc
