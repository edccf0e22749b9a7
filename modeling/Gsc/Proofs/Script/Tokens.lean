import Gsc.Proofs.Script.Mentions
import Gsc.Proofs.Script.Reading

/-! # Words and literals

How the rules for words, names, paths, numbers and strings take a text. A word is a longest run of
letters, digits and underscores.
-/

namespace Gsc

open Gsc.Peg
open Gsc.Peg.Pattern (lit choice plus)

def isWordChar (c : Char) : Bool := c.isAlphanum || c == '_'

def isWord (chars : List Char) : Bool := chars.all isWordChar

def WordEnds (rest : List Char) : Prop := ∀ c ∈ rest.head?, isWordChar c = false

def TokenEnds (rest : List Char) : Prop :=
  WordEnds rest ∧ ∀ c ∈ rest.head?, c ∉ ['/', '\\', '.']

theorem tokenEnds_cons {c : Char} {rest : List Char} (hc : isWordChar c = false)
    (hc' : c ∉ ['/', '\\', '.']) : TokenEnds (c :: rest) := by
  constructor
  · intro d hd
    cases hd
    exact hc
  · intro d hd
    cases hd
    exact hc'

def nameChars : List Char := "abcdefghijklmnopqrstuvwxyz0123456789_".toList

theorem mem_nameChars {c : Char} (h : isNameChar c = true) : c ∈ nameChars := by
  have hc : (97 ≤ c.toNat ∧ c.toNat ≤ 122) ∨ (48 ≤ c.toNat ∧ c.toNat ≤ 57) ∨ c.toNat = 95 := by
    unfold isNameChar Char.isLower at h
    simp [Char.isDigit, UInt32.le_iff_toNat_le] at h
    rcases h with (h | h) | rfl
    · exact .inl h
    · exact .inr (.inl h)
    · exact .inr (.inr rfl)
  have hchars : nameChars.map Char.toNat = List.range' 97 26 ++ (List.range' 48 10 ++ [95]) := by
    decide
  have hmem : c.toNat ∈ nameChars.map Char.toNat := by
    simp only [hchars, List.mem_append, List.mem_range'_1, List.mem_singleton]
    omega
  obtain ⟨d, hd, hcd⟩ := List.mem_map.1 hmem
  rwa [← Char.toNat_inj.1 hcd]

/-- What holds of the characters of names one by one. -/
theorem forall_nameChar (holds : Char → Bool) (h : nameChars.all holds = true) {c : Char}
    (hc : isNameChar c = true) : holds c = true :=
  List.all_eq_true.1 h c (mem_nameChars hc)

theorem isWord_of_nameChars {chars : List Char} (h : ∀ c ∈ chars, isNameChar c = true) :
    isWord chars = true :=
  List.all_eq_true.2 fun c hc => forall_nameChar isWordChar (by decide) (h c hc)

theorem lowercase_of_nameChars {chars : List Char} (h : ∀ c ∈ chars, isNameChar c = true) :
    Text.lowercase chars = chars := by
  conv_rhs => rw [← List.map_id chars]
  apply List.map_congr_left
  intro c hc
  exact of_decide_eq_true
    (forall_nameChar (fun c => decide (c.toLower = id c)) (by decide) (h c hc))

/-- A word at the beginning of a text is a beginning of the word there. -/
theorem exists_of_append_eq {word word' rest rest' : List Char} (hw : isWord word = true)
    (hr : WordEnds rest') (h : word ++ rest = word' ++ rest') :
    ∃ more, word' = word ++ more ∧ rest = more ++ rest' := by
  rcases List.append_eq_append_iff.1 h with ⟨more, hmore⟩ | ⟨more, rfl, rfl⟩
  · exact ⟨more, hmore⟩
  · cases more with
    | nil => exact ⟨[], by simp⟩
    | cons c more =>
        have hc : isWordChar c = true := List.all_eq_true.1 hw c (by simp)
        exact absurd (hr c rfl) (by simp [hc])

namespace Script

open Rule

variable {s : Spacing} {chars rest word : List Char}

/-! ## Words -/

theorem takes_identChar {c : Char} (h : isWordChar c = true) :
    Takes grammar identChar [c] rest := by
  rw [isWordChar, Bool.or_eq_true_iff, beq_iff_eq] at h
  by_cases hc : c.isAlphanum = true
  · exact .alt_left (.one hc)
  · obtain rfl := h.resolve_left hc
    exact .alt_right (fails ['_'] (by decide)) .text

theorem fails_identChar (h : WordEnds rest) : Fails grammar .atomic identChar rest := by
  cases rest with
  | nil => exact fun pos => .of_outcome (n := 5) rfl (by simp)
  | cons c rest =>
      have hc := h c rfl
      simp only [isWordChar, Bool.or_eq_false_iff, beq_eq_false_iff_ne] at hc
      exact fails_tight [c] (by simp [identChar, refuses, CharClass.holds, differ, lit, hc])

theorem takes_word (hw : isWord word = true) (hr : WordEnds rest) :
    Takes grammar (.star identChar) word rest := by
  have hchar : ∀ c ∈ word, ∀ rest, True → Takes grammar identChar [c] rest :=
    fun c hc _ _ => takes_identChar (List.all_eq_true.1 hw c hc)
  simpa using (takes_pieces word hchar (fun _ _ _ => trivial) trivial (fails_identChar hr)).2

theorem text_cases (word chars : List Char) :
    (∃ rest, chars = word ++ rest) ∨ Fails grammar s (.text word) chars := by
  by_cases h : ∃ rest, chars = word ++ rest
  · exact .inl h
  · refine .inr fun pos => ?_
    have hyields : Yields grammar s (.text word) ⟨pos, chars⟩ _ := .text
    cases hstrip : Cursor.strip? ⟨pos, chars⟩ word with
    | none => rwa [hstrip] at hyields
    | some after => exact (h ⟨after.rest, (Cursor.passes_of_strip? hstrip).rest⟩).elim

theorem takes_wholeWord (text : String) (hr : WordEnds rest) :
    Takes grammar (wholeWord text) text.toList rest := by
  have h : Takes grammar (wholeWord text) (text.toList ++ []) rest :=
    .seq .text (.notAhead (fails_identChar hr))
  rwa [List.append_nil] at h

theorem fails_before_word {p : Pattern Rule} {more : List Char}
    (hp : Takes grammar p word (more ++ rest)) (hw : isWord more = true) (hne : more ≠ []) :
    Fails grammar .atomic (.seq p (.notAhead identChar)) (word ++ (more ++ rest)) := by
  intro pos
  cases more with
  | nil => exact (hne rfl).elim
  | cons c more =>
      have hc : Takes grammar identChar [c] (more ++ rest) :=
        takes_identChar (List.all_eq_true.1 hw c List.mem_cons_self)
      exact (hp pos).seq_failed (.blank_tight (by decide)) (hc _).notAhead_failed

theorem fails_wholeWord {text : String} (ht : isWord text.toList = true)
    (hw : isWord word = true) (hr : WordEnds rest) (hne : text.toList ≠ word) :
    Fails grammar .atomic (wholeWord text) (word ++ rest) := by
  rcases text_cases text.toList (word ++ rest) with ⟨rest', h⟩ | h
  · obtain ⟨more, rfl, rfl⟩ := exists_of_append_eq ht hr h.symm
    rw [h]
    apply fails_before_word .text
    · simp_all [isWord]
    · rintro rfl
      simp at hne
  · exact fun pos => .seq_failed_left (h pos)

/-! ## Reserved words -/

def keywords : List String :=
  ["waittillframeend", "waittill", "wait", "undefined", "thread", "return", "notify", "level",
    "foreach", "for", "false", "endon", "else", "continue", "break", "true", "self", "while", "if",
    "in", "game", "anim"]

theorem body_keyword :
    body keyword
      = .seq (choice (lit "waittillframeend") (keywords.tail.map lit)) (.notAhead identChar) := rfl

theorem isWord_of_mem_keywords {w : String} (h : w ∈ keywords) : isWord w.toList = true :=
  (List.all_eq_true (p := fun w : String => isWord w.toList)).1 (by decide) w h

/-- A choice between literal texts fails or takes one of them. -/
theorem choice_cases (w : String) (ws : List String) (chars : List Char) :
    Fails grammar .atomic (choice (lit w) (ws.map lit)) chars ∨
      ∃ v ∈ w :: ws, ∃ rest, chars = v.toList ++ rest ∧
        Takes grammar (choice (lit w) (ws.map lit)) v.toList rest := by
  induction ws generalizing w with
  | nil =>
      rcases text_cases w.toList chars with ⟨rest, rfl⟩ | h
      · exact .inr ⟨w, List.mem_cons_self, rest, rfl, .text⟩
      · exact .inl h
  | cons w' ws ih =>
      rcases text_cases w.toList chars with ⟨rest, rfl⟩ | h
      · exact .inr ⟨w, List.mem_cons_self, rest, rfl, .alt_left .text⟩
      · rcases ih w' with h' | ⟨v, hv, rest, rfl, htakes⟩
        · exact .inl fun pos => .alt_right (h pos) (h' pos)
        · exact .inr ⟨v, List.mem_cons_of_mem w hv, rest, rfl, .alt_right h htakes⟩

/-- Of words that do not begin with an earlier one, a choice takes the one that stands there. -/
theorem takes_choice {v w : String} {ws : List String}
    (hwords : ∀ u ∈ w :: ws, isWord u.toList = true)
    (hpairs : (w :: ws).Pairwise fun a b => ¬ a.toList <+: b.toList) (hv : v ∈ w :: ws)
    (hr : WordEnds rest) : Takes grammar (choice (lit w) (ws.map lit)) v.toList rest := by
  induction ws generalizing w with
  | nil =>
      obtain rfl := List.mem_singleton.1 hv
      exact .text
  | cons w' ws ih =>
      rcases List.mem_cons.1 hv with rfl | hv
      · exact .alt_left .text
      · rw [List.pairwise_cons] at hpairs
        rw [List.forall_mem_cons] at hwords
        refine .alt_right ?_ (ih hwords.2 hpairs.2 hv)
        rcases text_cases w.toList (v.toList ++ rest) with ⟨rest', h⟩ | h
        · obtain ⟨more, hmore, -⟩ := exists_of_append_eq hwords.1 hr h.symm
          exact (hpairs.1 v hv ⟨more, hmore.symm⟩).elim
        · exact h

theorem takes_keyword {w : String} (h : w ∈ keywords) (hr : WordEnds rest) :
    Takes grammar (body keyword) w.toList rest := by
  have hpairs : keywords.Pairwise fun a b => ¬ a.toList <+: b.toList := by decide
  have htakes : Takes grammar (body keyword) (w.toList ++ []) rest := by
    rw [body_keyword]
    exact .seq (takes_choice (fun u hu => isWord_of_mem_keywords hu) hpairs h hr)
      (.notAhead (fails_identChar hr))
  rwa [List.append_nil] at htakes

theorem fails_keyword (hw : isWord word = true) (hr : WordEnds rest)
    (hk : ∀ w ∈ keywords, w.toList ≠ word) : Fails grammar s (.rule keyword) (word ++ rest) := by
  suffices h : Fails grammar .atomic (body keyword) (word ++ rest) from
    fun pos => .rule_failed (h pos)
  rw [body_keyword]
  rcases choice_cases "waittillframeend" keywords.tail (word ++ rest) with
    h | ⟨v, hv, rest', h, htakes⟩
  · exact fun pos => .seq_failed_left (h pos)
  · obtain ⟨more, rfl, rfl⟩ := exists_of_append_eq (isWord_of_mem_keywords hv) hr h.symm
    rw [h]
    apply fails_before_word htakes
    · simp_all [isWord]
    · rintro rfl
      exact hk v hv (by simp)

/-! ## Names -/

def IsIdentifier (name : String) : Prop := isName name.toList = true ∧ name ∉ keywords

instance (name : String) : Decidable (IsIdentifier name) :=
  inferInstanceAs (Decidable (_ ∧ _))

theorem takes_identStart {c : Char} (h : c.isAlpha = true ∨ c = '_') :
    Takes grammar identStart [c] rest := by
  rcases h with h | rfl
  · exact .alt_left (.one h)
  · exact .alt_right (fails ['_'] (by decide)) .text

theorem takes_fieldName_of_word {c : Char} (hc : c.isAlpha = true ∨ c = '_')
    (hw : isWord word = true) (hr : WordEnds rest) :
    Takes grammar (body fieldName) (c :: word) rest :=
  .seq (takes_identStart hc) (takes_word hw hr)

theorem takes_fieldName (hn : isName word = true) (hr : WordEnds rest) :
    Takes grammar (body fieldName) word rest := by
  cases word with
  | nil => cases hn
  | cons c word =>
      have hword := isWord_of_nameChars (isNameChar_of_isName hn)
      rw [isWord, List.all_cons, Bool.and_eq_true_iff] at hword
      simp only [isName, isNameStart, Bool.and_eq_true_iff, Bool.or_eq_true_iff, beq_iff_eq] at hn
      exact takes_fieldName_of_word (hn.1.imp_left fun h => Bool.or_eq_true_iff.2 (.inr h))
        hword.2 hr

theorem takes_ident_of_fieldName (hw : isWord word = true) (hk : ∀ w ∈ keywords, w.toList ≠ word)
    (hr : WordEnds rest) (h : Takes grammar (body fieldName) word rest) :
    Takes grammar (body ident) word rest :=
  .seq (.notAhead (fails_keyword hw hr hk)) h

theorem takes_ident {name : String} (h : IsIdentifier name) (hr : WordEnds rest) :
    Takes grammar (body ident) name.toList rest := by
  have hword := isWord_of_nameChars (isNameChar_of_isName h.1)
  refine takes_ident_of_fieldName hword (fun w hw hsame => ?_) hr (takes_fieldName h.1 hr)
  exact h.2 (String.toList_inj.1 hsame ▸ hw)

theorem fails_ident_of_keyword {w : String} (h : w ∈ keywords) (hr : WordEnds rest) :
    Fails grammar s (.rule ident) (w.toList ++ rest) := by
  intro pos
  have hkeyword : Yields grammar .atomic (.rule keyword) ⟨pos, w.toList ++ rest⟩ _ :=
    .rule (takes_keyword h hr pos)
  exact .rule_failed (.seq_failed_left hkeyword.notAhead_failed)

theorem reads_name {r : Rule} {name : String} {span : Span} (hr : r = ident ∨ r = fieldName)
    (hn : isName name.toList = true) (h : Takes grammar r.body name.toList rest)
    (hs : s ≠ .atomic) : Reads s (.rule r) (name.toList ++ rest) rest [.name ⟨name, span⟩] := by
  have hname : Lexeme.lowercase name.toList = name := by
    rw [Lexeme.lowercase, lowercase_of_nameChars (isNameChar_of_isName hn), String.ofList_toList]
  rcases hr with rfl | rfl
  · exact .token h rfl hs fun _ => ⟨_, .ident, .name hname⟩
  · exact .token h rfl hs fun _ => ⟨_, .fieldName, .name hname⟩

/-! ## Paths -/

theorem takes_segment (hw : isWord word = true) (hne : word ≠ []) (hr : WordEnds rest) :
    Takes grammar pathSegment word rest := by
  cases word with
  | nil => exact (hne rfl).elim
  | cons c word =>
      rw [isWord, List.all_cons, Bool.and_eq_true_iff] at hw
      exact .seq (takes_identChar hw.1) (takes_word hw.2 hr)

theorem fails_mark (c : Char) (hc : c ∈ ['/', '\\', '.']) (hr : TokenEnds rest) :
    Fails grammar .atomic (.text [c]) rest := by
  cases rest with
  | nil => exact fun pos => .of_outcome (n := 1) rfl (by simp)
  | cons d rest =>
      have hd : d ≠ c := by
        rintro rfl
        exact hr.2 d rfl hc
      exact fails_tight [d] (by simp [refuses, differ, hd])

theorem takes_path {first : List Char} {segments : List (List Char)}
    (h : ∀ segment ∈ first :: segments, isWord segment = true ∧ segment ≠ [])
    (hr : TokenEnds rest) :
    Takes grammar (body path) (first ++ segments.flatMap ('/' :: ·)) rest := by
  rw [List.forall_mem_cons] at h
  have hslash : ∀ chars, WordEnds ('/' :: chars) := by
    intro chars c hc
    cases hc
    decide
  have hpiece : ∀ segment ∈ segments, ∀ rest, WordEnds rest →
      Takes grammar (.seq (.alt (lit "\\") (lit "/")) pathSegment) ('/' :: segment) rest := by
    intro segment hmem rest hrest
    have hsegment := takes_segment (h.2 segment hmem).1 (h.2 segment hmem).2 hrest
    have hseparator : Takes grammar (.alt (lit "\\") (lit "/")) ['/'] (segment ++ rest) :=
      .alt_right (fails_tight ['/'] (by decide)) .text
    exact hseparator.seq hsegment
  have hstop : Fails grammar .atomic (.seq (.alt (lit "\\") (lit "/")) pathSegment) rest :=
    fun pos => .seq_failed_left
      (.alt_right (fails_mark '\\' (by simp) hr pos) (fails_mark '/' (by simp) hr pos))
  refine .seq (takes_segment h.1.1 h.1.2 ?_)
    (takes_pieces segments hpiece (fun _ _ _ => hslash _) hr.1 hstop).2
  cases segments with
  | nil => exact hr.1
  | cons segment segments => exact hslash _

theorem takes_path_of_word (hw : isWord word = true) (hne : word ≠ []) (hr : TokenEnds rest) :
    Takes grammar (body path) word rest := by
  have h : Takes grammar (body path) (word ++ [].flatMap ('/' :: ·)) rest :=
    takes_path (List.forall_mem_singleton.2 ⟨hw, hne⟩) hr
  rwa [List.flatMap_nil, List.append_nil] at h

theorem takes_path_of_isPath {path : String} (h : IsPath path.toList) (hr : TokenEnds rest) :
    Takes grammar (body Rule.path) path.toList rest := by
  obtain ⟨first, segments, hsegments, hpath⟩ := h
  rw [hpath, intercalate_slash, ← List.flatMap_def]
  refine takes_path (fun segment hmem => ?_) hr
  have hsegment := hsegments segment hmem
  refine ⟨isWord_of_nameChars (isNameChar_of_isSegment hsegment), ?_⟩
  rintro rfl
  cases hsegment

theorem normalizePath_of_isPath {path : String} (h : IsPath path.toList) :
    Lexeme.normalizePath path.toList = path := by
  have hchars : ∀ c ∈ path.toList, (Char.toLower ∘ fun c => if c = '\\' then '/' else c) c = c := by
    intro c hc
    rcases h.char c hc with hname | rfl
    · exact of_decide_eq_true
        (forall_nameChar (fun c => decide ((if c = '\\' then '/' else c).toLower = c))
          (by decide) hname)
    · decide
  rw [Lexeme.normalizePath, Text.lowercase, List.map_map, List.map_congr_left hchars, List.map_id',
    String.ofList_toList]

theorem reads_path {path : String} {span : Span} (h : IsPath path.toList) (hr : TokenEnds rest)
    (hs : s ≠ .atomic) :
    Reads s (.rule Rule.path) (path.toList ++ rest) rest [.path ⟨path, span⟩] :=
  .token (takes_path_of_isPath h hr) rfl hs
    fun _ => ⟨_, .path, .path (normalizePath_of_isPath h)⟩

/-! ## Numbers -/

theorem isWord_digits (n : Nat) : isWord (Nat.toDigits 10 n) = true := by
  rw [isWord, List.all_eq_true]
  intro c hc
  have hdigit := Nat.isDigit_of_mem_toDigits (by decide) (by decide) hc
  simp [isWordChar, Char.isAlphanum, hdigit]

theorem fails_digit (hr : WordEnds rest) : Fails grammar .atomic (.one .digit) rest := by
  cases rest with
  | nil => exact fun pos => .of_outcome (n := 5) rfl (by simp)
  | cons c rest =>
      have hc := hr c rfl
      simp only [isWordChar, Char.isAlphanum, Bool.or_eq_false_iff] at hc
      exact fails_tight [c] (by simp [refuses, CharClass.holds, hc.1.2])

theorem takes_number (n : Nat) (hr : TokenEnds rest) :
    Takes grammar (body number) (Nat.toDigits 10 n) rest := by
  have hdigit : ∀ c ∈ Nat.toDigits 10 n, ∀ rest, True → Takes grammar (.one .digit) [c] rest :=
    fun c hc _ _ => .one (Nat.isDigit_of_mem_toDigits (by decide) (by decide) hc)
  have hplus : Takes grammar (plus (.one .digit)) (Nat.toDigits 10 n) rest := by
    cases hdigits : Nat.toDigits 10 n with
    | nil => exact (Nat.toDigits_ne_nil hdigits).elim
    | cons c chars =>
        rw [hdigits, List.forall_mem_cons] at hdigit
        have hstar :=
          (takes_pieces chars hdigit.2 (fun _ _ _ => trivial) trivial (fails_digit hr.1)).2
        rw [List.flatMap_singleton'] at hstar
        exact .seq (hdigit.1 _ trivial) hstar
  have hopt : Takes grammar (.opt (.seq (lit ".") (.star (.one .digit)))) [] rest :=
    .opt_none fun pos => .seq_failed_left (fails_mark '.' (by simp) hr pos)
  rw [← List.append_nil (Nat.toDigits 10 n)]
  exact .alt_left (.seq (by rwa [List.nil_append]) hopt)

theorem number?_digits {n : Nat} (hn : n ≤ 9223372036854775807) (span : Span) :
    Lexeme.number? (Nat.toDigits 10 n) span = some (.int span (Int64.ofNat n)) := by
  have hpoint : '.' ∉ Nat.toDigits 10 n := fun h =>
    absurd (Nat.isDigit_of_mem_toDigits (by decide) (by decide) h) (by decide)
  have hvalue : Binary32.digitsValue (Nat.toDigits 10 n) = n := Nat.ofDigitChars_ten_toDigits
  rw [Lexeme.number?, if_neg hpoint]
  simp only [hvalue]
  rw [if_pos hn]

theorem reads_number {n : Nat} {span : Span} (hn : n ≤ 9223372036854775807) (hr : TokenEnds rest)
    (hs : s ≠ .atomic) :
    Reads s (.rule number) (Nat.toDigits 10 n ++ rest) rest
      [.item (.operand (.int span (Int64.ofNat n)))] := by
  exact .token (takes_number n hr) rfl hs fun span' =>
    ⟨_, .number (number?_digits hn span'), .operand (by simp [Expr.bare])⟩

/-! ## Strings -/

/-- A character inside quotes: a backslash stands before quotes and backslashes. -/
def escape (c : Char) : List Char := if c = '"' ∨ c = '\\' then ['\\', c] else [c]

def quote (chars : List Char) : List Char := '"' :: (chars.flatMap escape ++ ['"'])

theorem takes_escaped (c : Char) : Takes grammar stringChar ['\\', c] rest := by
  have hescaped : Takes grammar (.seq (lit "\\") (.one .any)) (['\\'] ++ [c]) rest :=
    .seq .text (.one rfl)
  exact .alt_left hescaped

theorem takes_unescaped {c : Char} (hquote : c ≠ '"') (hslash : c ≠ '\\') :
    Takes grammar stringChar [c] rest := by
  have hfirst : Fails grammar .atomic (lit "\\") (c :: rest) :=
    fails_tight [c] (by simp [refuses, differ, lit, hslash])
  have hsecond : Fails grammar .atomic (.alt (lit "\"") (lit "\\")) (c :: rest) :=
    fails_tight [c] (by simp [refuses, differ, lit, hquote, hslash])
  have hplain : Takes grammar (.seq (.notAhead (.alt (lit "\"") (lit "\\"))) (.one .any))
      ([] ++ [c]) rest := .seq (.notAhead hsecond) (.one rfl)
  exact .alt_right (fun pos => .seq_failed_left (hfirst pos)) hplain

theorem takes_stringChar (c : Char) : Takes grammar stringChar (escape c) rest := by
  by_cases hc : c = '"' ∨ c = '\\'
  · rw [escape, if_pos hc]
    exact takes_escaped c
  · rw [escape, if_neg hc]
    rw [not_or] at hc
    exact takes_unescaped hc.1 hc.2

theorem fails_stringChar : Fails grammar .atomic stringChar ('"' :: rest) := by
  intro pos
  have hquote : Takes grammar (.alt (lit "\"") (lit "\\")) ['"'] rest := .alt_left .text
  exact .alt_right (.seq_failed_left (fails_tight ['"'] (by decide) (by decide) pos))
    (.seq_failed_left (hquote pos).notAhead_failed)

theorem takes_string (chars : List Char) : Takes grammar (body string) (quote chars) rest := by
  have hchar : ∀ c ∈ chars, ∀ rest, True → Takes grammar stringChar (escape c) rest :=
    fun c _ _ _ => takes_stringChar c
  have hpieces : Takes grammar (.star stringChar) (chars.flatMap escape) ('"' :: rest) :=
    (takes_pieces chars hchar (fun _ _ _ => trivial) trivial fails_stringChar).2
  have hquote : Takes grammar (lit "\"") ['"'] ((chars.flatMap escape ++ ['"']) ++ rest) := .text
  exact hquote.seq (.seq hpieces .text)

theorem unescape_flatMap (chars : List Char) : Lexeme.unescape (chars.flatMap escape) = chars := by
  induction chars with
  | nil => rfl
  | cons c chars ih =>
      rw [List.flatMap_cons, escape]
      by_cases hc : c = '"' ∨ c = '\\'
      · rw [if_pos hc]
        rcases hc with rfl | rfl
        · simp [Lexeme.unescape, ih]
        · simp [Lexeme.unescape, ih]
      · rw [if_neg hc]
        rw [not_or] at hc
        simp [Lexeme.unescape, hc.2, ih]

theorem unquote_quote (text : String) : Lexeme.unquote (quote text.toList) = text := by
  simp [Lexeme.unquote, Lexeme.unwrap?, quote, unescape_flatMap]

theorem reads_string {text : String} {span : Span} (hs : s ≠ .atomic) :
    Reads s (.rule string) (quote text.toList ++ rest) rest [.text ⟨text, span⟩] :=
  .token (takes_string text.toList) rfl hs fun _ => ⟨_, .string, .text (unquote_quote text)⟩

end Script

end Gsc
