import Gsc.Proofs.Peg.Spelling
import Gsc.Proofs.Script.Definitions
import Gsc.Proofs.Script.Mentions

/-! # The names in a script

Reading a tree makes up no names: what a part mentions is what its parts mention, or the text of its
own rule. So the names and paths of a parsed script are spelled as the rules for them say.
-/

namespace Gsc

open Gsc.Peg
open Gsc.Peg.Pratt (Grouping)

/-! ## Rows of operators and operands -/

def Suffix.mentions : Suffix → List Mention
  | .field name => [.name name]
  | .index value => value.mentions
  | .call _ callee args => callee.mentions ++ mentionsOfArgs args

def Item.mentions : Item → List Mention
  | .operand value => value.mentions
  | .before .. | .between _ => []
  | .behind suffix _ => suffix.mentions

@[simp] theorem Suffix.mentions_apply (suffix : Suffix) (base : Expr) (span : Span) :
    (suffix.apply base span).mentions = base.mentions ++ suffix.mentions := by
  cases suffix <;> simp [apply, Expr.mentions, mentions, mentionsOfObject]

@[simp] theorem UnaryOp.mentions_apply (op : UnaryOp) (span : Span) (operand : Expr) :
    (op.apply span operand).mentions = operand.mentions := by
  simp [apply, Expr.mentions]

@[simp] theorem BinaryOp.mentions_apply (op : BinaryOp) (left right : Expr) :
    (op.apply left right).mentions = left.mentions ++ right.mentions := by
  simp [apply, Expr.mentions]

namespace Item

theorem Builds.mentions_eq {g : Grouping Item} {e : Expr} (h : Builds g e) :
    e.mentions = g.row.flatMap mentions := by
  induction h with
  | operand e => simp [Grouping.row, mentions]
  | before op span _ ih => simp [Grouping.row, mentions, ih]
  | between op _ _ ihx ihy => simp [Grouping.row, mentions, ihx, ihy]
  | behind suffix span _ ih => simp [Grouping.row, mentions, ih]

theorem Row.mentions_eq {items : List Item} {e : Expr} (h : Row items e) :
    e.mentions = items.flatMap mentions := by
  obtain ⟨g, rfl, -, he⟩ := h
  exact he.mentions_eq

end Item

/-! ## Parts -/

@[simp] theorem Expr.mentions_withSpan (s : Span) (e : Expr) :
    (e.withSpan s).mentions = e.mentions := by
  cases e with
  | functionRef _ path _ => cases path <;> simp [withSpan, mentions]
  | _ => simp [withSpan, mentions]

namespace Part

def mentions : Part → List Mention
  | .mark | .thread | .assignOp _ | .incDecOp _ => []
  | .name n => [.name n.value]
  | .path p | .included p => [.path p.value]
  | .text s | .animtree s => [.literal s.value]
  | .item i => i.mentions
  | .expr e => e.mentions
  | .choice t e => t.mentions ++ e.mentions
  | .callee c => c.mentions
  | .args es => mentionsOfArgs es
  | .assign t _ v => t.mentions ++ v.mentions
  | .incDec t _ => t.mentions
  | .stmt s => s.mentions
  | .clause s => mentionsOfClause s
  | .condition e => mentionsOfObject e
  | .params ns => mentionsOfNames ns
  | .function f => f.mentions
  | .script s => s.mentions

/-- What the text of a rule says by itself. -/
def ownMentions (rule : Rule) (chars : List Char) : List Mention :=
  match rule with
  | .ident | .fieldName => [.name (Lexeme.lowercase chars)]
  | .path => [.path (Lexeme.normalizePath chars)]
  | .string => [.literal (Lexeme.unquote chars)]
  | _ => []

@[simp] theorem mentions_exprs (es : List Expr) :
    (es.map expr).flatMap mentions = mentionsOfArgs es := by
  induction es with
  | nil => rfl
  | cons e es ih => rw [List.map_cons, List.flatMap_cons, ih, mentionsOfArgs, mentions]

@[simp] theorem mentions_stmts (body : List Stmt) :
    (body.map stmt).flatMap mentions = mentionsOfBody body := by
  induction body with
  | nil => rfl
  | cons s body ih => rw [List.map_cons, List.flatMap_cons, ih, mentionsOfBody, mentions]

@[simp] theorem mentions_names (names : List (Located String)) :
    (names.map name).flatMap mentions = mentionsOfNames names := by
  induction names with
  | nil => rfl
  | cons n names ih => rw [List.map_cons, List.flatMap_cons, ih]; rfl

theorem mentions_item? {part : Part} {i : Item} (h : part.item? = some i) :
    i.mentions = part.mentions := by
  unfold item? at h
  split at h
  · cases h
    rfl
  · cases h
    simp [Item.mentions, Expr.mentions, mentions]
  · cases h
    simp [Item.mentions, Expr.mentions, mentions]
  · cases h

theorem Items.mentions_eq {parts : List Part} {items : List Item} (h : Items parts items) :
    items.flatMap Item.mentions = parts.flatMap mentions := by
  induction h with
  | nil => rfl
  | cons hi _ ih => rw [List.flatMap_cons, List.flatMap_cons, ih, mentions_item? hi]

@[simp] theorem mentions_callParts (thread : Bool) (callee : Callee) (args : List Expr) :
    (callParts thread callee args).flatMap mentions = callee.mentions ++ mentionsOfArgs args := by
  cases thread <;> simp [callParts, mentions]

theorem mentions_simple? {span : Span} {part : Part} {s : Stmt} (h : part.simple? span = some s) :
    s.mentions = part.mentions := by
  unfold simple? at h
  split at h
  · cases h
    rw [Stmt.mentions, mentions]
  · cases h
    rw [Stmt.mentions, mentions]
  · cases h
    rw [Stmt.mentions, mentions]
  · cases h

theorem mentions_addTo (script : Script) (part : Part) :
    (part.addTo script).mentions ⊆ script.mentions ++ part.mentions := by
  intro m hm
  cases part with
  | included | animtree | function =>
      simp only [addTo, Script.mentions, mentions, List.mem_append, List.map_append,
        List.flatMap_append, List.map_cons, List.map_nil, List.flatMap_singleton,
        Option.toList_some, List.mem_singleton] at hm ⊢
      tauto
  | _ => exact List.mem_append_left _ hm

theorem mentions_foldl (parts : List Part) (script : Script) :
    (parts.foldl addTo script).mentions ⊆ script.mentions ++ parts.flatMap mentions := by
  induction parts generalizing script with
  | nil => simp
  | cons part parts ih =>
      intro m hm
      have hmore := ih (part.addTo script) hm
      have hstep := @mentions_addTo script part m
      simp only [List.flatMap_cons, List.mem_append] at hstep hmore ⊢
      tauto

theorem mentions_number? {chars : List Char} {span : Span} {e : Expr}
    (h : Lexeme.number? chars span = some e) : e.mentions = [] := by
  unfold Lexeme.number? at h
  split at h
  · cases h
    rw [Expr.mentions]
  · dsimp only at h
    split at h
    · cases h
      rw [Expr.mentions]
    · cases h

/-- What a rule mentions is mentioned by its parts, or is its own text. -/
theorem mentions_of_standsFor {rule : Rule} {span : Span} {chars : List Char} {parts : List Part}
    {part : Part} (h : StandsFor span chars rule parts part) :
    part.mentions ⊆ parts.flatMap mentions ++ ownMentions rule chars := by
  cases h with
  | number he => simp [mentions, Item.mentions, mentions_number? he]
  | literal l => cases l <;> simp [mentions, Item.mentions, Lexeme.ofLiteral, Expr.mentions]
  | file parts => exact List.subset_append_of_subset_left _ (mentions_foldl parts .empty)
  | init hs | step hs | simple hs =>
      rw [List.flatMap_singleton, ← mentions_simple? hs]
      exact List.subset_append_left _ _
  | expr hitems he =>
      rw [mentions, he.mentions_eq, hitems.mentions_eq]
      exact List.subset_append_left _ _
  | @ternary parts _ _ hitems he t e =>
      rw [mentions, Expr.mentions, he.mentions_eq, hitems.mentions_eq, List.flatMap_append,
        List.flatMap_singleton, mentions, ← List.append_assoc (parts.flatMap mentions)]
      exact List.subset_append_left _ _
  | _ =>
      simp [mentions, ownMentions, Item.mentions, Suffix.mentions, Expr.mentions, Callee.mentions,
        Function.mentions, Stmt.mentions, mentionsOfClause, mentionsOfObject]

end Part

/-! ## Rules for names and paths -/

theorem isLower_toLower {c : Char} (h : c.isAlpha = true) : c.toLower.isLower = true := by
  unfold Char.toLower
  split
  · rename_i hu
    simp only [ge_iff_le, UInt32.le_iff_toNat_le] at hu
    unfold Char.isLower
    simp [UInt32.le_iff_toNat_le] at hu ⊢
    omega
  · rename_i hu
    unfold Char.isAlpha Char.isUpper at h
    unfold Char.isLower at h ⊢
    simp at h hu ⊢
    grind

theorem toLower_of_isDigit {c : Char} (h : c.isDigit = true) : c.toLower = c := by
  unfold Char.toLower
  split
  · rename_i hu
    simp [Char.isDigit, UInt32.le_iff_toNat_le] at hu h
    omega
  · rfl

theorem isNameStart_toLower {c : Char} (h : c.isAlpha = true ∨ c = '_') :
    isNameStart c.toLower = true := by
  rcases h with h | rfl
  · simp [isNameStart, isLower_toLower h]
  · rfl

theorem isNameChar_toLower {c : Char} (h : c.isAlphanum = true ∨ c = '_') :
    isNameChar c.toLower = true := by
  rcases h with h | rfl
  · rcases Bool.or_eq_true_iff.1 h with h | h
    · simp [isNameChar, isLower_toLower h]
    · simp [isNameChar, toLower_of_isDigit h, h]
  · rfl

open Computability

namespace Rule

theorem mem_language_identChar {w : List Char} (h : w ∈ identChar.language) :
    ∃ c, w = [c] ∧ isNameChar c.toLower = true := by
  rcases h with ⟨c, hc, rfl⟩ | h
  · exact ⟨c, rfl, isNameChar_toLower (.inl hc)⟩
  · exact ⟨'_', h, rfl⟩

theorem mem_language_identStart {w : List Char} (h : w ∈ identStart.language) :
    ∃ c, w = [c] ∧ isNameStart c.toLower = true := by
  rcases h with ⟨c, hc, rfl⟩ | h
  · exact ⟨c, rfl, isNameStart_toLower (.inl hc)⟩
  · exact ⟨'_', h, rfl⟩

theorem isNameChar_of_mem_kstar {w : List Char} (h : w ∈ identChar.language∗) :
    ∀ c ∈ w, isNameChar c.toLower = true := by
  obtain ⟨pieces, rfl, hpieces⟩ := h
  intro c hc
  obtain ⟨piece, hpiece, hc⟩ := List.mem_flatten.1 hc
  obtain ⟨d, rfl, hd⟩ := mem_language_identChar (hpieces piece hpiece)
  rw [List.mem_singleton.1 hc]
  exact hd

/-- A name is a first character and more of them. -/
theorem isName_of_mem {w : List Char} (h : w ∈ (body fieldName).language) :
    isName (Text.lowercase w) = true := by
  obtain ⟨first, hfirst, rest, hrest, rfl⟩ := Language.mem_mul.1 h
  obtain ⟨c, rfl, hc⟩ := mem_language_identStart hfirst
  have hall := isNameChar_of_mem_kstar hrest
  simpa [Text.lowercase, isName, hc] using hall

def normalizeChar (c : Char) : Char := (if c = '\\' then '/' else c).toLower

theorem isSegment_of_mem {w : List Char} (h : w ∈ pathSegment.language) :
    isSegment (w.map normalizeChar) = true := by
  obtain ⟨first, hfirst, rest, hrest, rfl⟩ := Language.mem_mul.1 h
  obtain ⟨c, rfl, hc⟩ := mem_language_identChar hfirst
  have hone : ∀ c : Char, isNameChar c.toLower = true → isNameChar (normalizeChar c) = true := by
    intro c hc
    have hne : c ≠ '\\' := by
      rintro rfl
      revert hc
      decide
    rwa [normalizeChar, if_neg hne]
  have hall := isNameChar_of_mem_kstar hrest
  simp only [List.singleton_append, List.map_cons, isSegment, List.isEmpty_cons, Bool.not_false,
    List.all_cons, Bool.true_and, hone c hc, List.all_map, List.all_eq_true]
  exact fun d hd => hone d (hall d hd)

def furtherSegment : Pattern Rule := .seq (.alt (.lit "\\") (.lit "/")) pathSegment

theorem exists_segments {pieces : List (List Char)}
    (h : ∀ piece ∈ pieces, piece ∈ furtherSegment.language) :
    ∃ segments : List (List Char), (∀ s ∈ segments, isSegment s = true) ∧
      pieces.flatten.map normalizeChar = (segments.map ('/' :: ·)).flatten := by
  induction pieces with
  | nil => exact ⟨[], by simp, rfl⟩
  | cons piece pieces ih =>
      simp only [List.forall_mem_cons] at h
      obtain ⟨segments, hsegments, hsame⟩ := ih h.2
      obtain ⟨separator, hseparator, segment, hsegment, rfl⟩ := Language.mem_mul.1 h.1
      refine ⟨segment.map normalizeChar :: segments, ?_, ?_⟩
      · exact List.forall_mem_cons.2 ⟨isSegment_of_mem hsegment, hsegments⟩
      · have hslash : separator.map normalizeChar = ['/'] := by
          rcases hseparator with hs | hs
          · rw [show separator = ['\\'] from hs]
            rfl
          · rw [show separator = ['/'] from hs]
            rfl
        simp [hsame, hslash]

/-- A path is a segment and more of them, each behind a separator. -/
theorem isPath_of_mem {w : List Char} (h : w ∈ (body path).language) :
    IsPath (w.map normalizeChar) := by
  obtain ⟨first, hfirst, rest, ⟨pieces, rfl, hpieces⟩, rfl⟩ := Language.mem_mul.1 h
  obtain ⟨segments, hsegments, hsame⟩ := exists_segments hpieces
  refine ⟨first.map normalizeChar, segments, ?_, ?_⟩
  · exact List.forall_mem_cons.2 ⟨isSegment_of_mem hfirst, hsegments⟩
  · rw [intercalate_slash, List.map_append, hsame]

/-- The text of a rule that stands for a name or a path is spelled as one. -/
theorem spelled_ownMentions {rule : Rule} {chars : List Char}
    (h : kind rule ≠ .normal → chars ∈ (body rule).language) :
    ∀ m ∈ Part.ownMentions rule chars, m.Spelled := by
  intro m hm
  cases rule with
  | ident =>
      rw [List.mem_singleton.1 hm, Mention.Spelled, Lexeme.lowercase, String.toList_ofList]
      have hw := h (by decide)
      simp only [body, Pattern.sequence, Pattern.language, one_mul] at hw
      exact isName_of_mem hw
  | fieldName =>
      rw [List.mem_singleton.1 hm, Mention.Spelled, Lexeme.lowercase, String.toList_ofList]
      exact isName_of_mem (h (by decide))
  | path =>
      rw [List.mem_singleton.1 hm, Mention.Spelled, Lexeme.normalizePath, String.toList_ofList,
        Text.lowercase, List.map_map]
      exact isPath_of_mem (h (by decide))
  | string =>
      rw [List.mem_singleton.1 hm]
      trivial
  | _ => cases hm

end Rule

/-! ## Parsed scripts -/

theorem Part.spelled_of_means {trees : List (ParseTree Rule)} (h : Spelled Script.grammar trees)
    {parts : List Part} (hparts : List.Forall₂ Means trees parts) :
    ∀ m ∈ parts.flatMap mentions, m.Spelled := by
  induction h generalizing parts with
  | nil =>
      cases hparts
      simp
  | @node r start stop children trees hr hchildren htrees ih ih' =>
      obtain ⟨part, rest, hpart, hrest, rfl⟩ := List.forall₂_cons_left_iff.1 hparts
      obtain ⟨hinner, hstands⟩ := hpart
      intro m hm
      rcases List.mem_append.1 hm with hm | hm
      · rcases List.mem_append.1 (mentions_of_standsFor hstands hm) with hm | hm
        · exact ih hinner m hm
        · exact Rule.spelled_ownMentions hr m hm
      · exact ih' hrest m hm

/-- The names and paths of a parsed script are in their normal form. -/
theorem Script.spelled_of_parseChars {content : List Char} {script : Script}
    (h : parseChars content = .ok script) : ∀ m ∈ script.mentions, m.Spelled := by
  obtain ⟨trees, after, hmatch⟩ := matched_of_parseChars h
  obtain ⟨file, _, rfl, hmeans, -, hread⟩ | ⟨t, -, herror⟩ := parseChars_of_run hmatch
  · cases hread.symm.trans h
    have hall := Part.spelled_of_means (spelled_of_run hmatch) (.cons hmeans .nil)
    simpa [Part.mentions] using hall
  · cases herror.symm.trans h

end Gsc
