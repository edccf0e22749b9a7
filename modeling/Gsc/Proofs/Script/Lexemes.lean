import Gsc.Proofs.Script.Depth
import Gsc.Proofs.Script.Tokens
import Mathlib.Data.List.DropRight

/-! # Which words and strings are taken

What the rules for names, reserved words and strings come to at every place of every text, under
every bound that is deep enough. Words are told apart by the whole run of letters, digits and
underscores, and strings end at the first quote that no backslash escapes.
-/

namespace Gsc

open Gsc.Peg

namespace Script

open Rule

variable {r : Rule} {mode : Mode} {c : Cursor} {log : Attempts Rule} {n pos : Nat}
  {word chars front rest : List Char}

/-! ## Tokens under every bound -/

/-- What comes of a rule that takes a word in front of `rest` and holds no other rule. -/
def tokenAt (r : Rule) (mode : Mode) (pos : Nat) (word rest : List Char) : Outcome Rule :=
  let after : Cursor := ⟨pos + utf8Length word, rest⟩
  .matched (recorded r ⟨pos, word ++ rest⟩ mode [] after) after

theorem eval_of_yields {p : Pattern Rule} {o : Outcome Rule}
    (h : Yields grammar mode.spacing p c o) (hn : (eval grammar n p mode c log).1 ≠ .exhausted) :
    (eval grammar n p mode c log).1 = o := by
  rw [(forgets grammar n).once] at hn ⊢
  exact h.eq_of_outcome hn

theorem yields_of_takes (hr : r.kind = .atomic) (h : Takes grammar r.body word rest) (mode : Mode)
    (pos : Nat) :
    Yields grammar mode.spacing (.rule r) ⟨pos, word ++ rest⟩ (tokenAt r mode pos word rest) := by
  have hinside : r.kind.inside mode.spacing = .atomic := by rw [hr]; rfl
  have haround : r.kind.around mode.spacing = mode.spacing := by rw [hr]; rfl
  have hrule : Yields grammar mode.spacing (.rule r) ⟨pos, word ++ rest⟩ _ :=
    .rule (hinside ▸ h pos)
  rwa [show grammar.kind r = r.kind from rfl, haround, ← recorded_eq] at hrule

theorem yields_of_fails (hr : r.kind = .atomic) (h : Fails grammar .atomic r.body chars)
    (s : Spacing) (pos : Nat) : Yields grammar s (.rule r) ⟨pos, chars⟩ .failed := by
  have hinside : r.kind.inside s = .atomic := by rw [hr]; rfl
  exact .rule_failed (hinside ▸ h pos)

/-! ## Words -/

def wordAt (chars : List Char) : List Char := chars.takeWhile isWordChar

def behindWord (chars : List Char) : List Char := chars.dropWhile isWordChar

@[simp] theorem wordAt_append_behindWord (chars : List Char) :
    wordAt chars ++ behindWord chars = chars :=
  List.takeWhile_append_dropWhile

theorem isWord_wordAt (chars : List Char) : isWord (wordAt chars) = true :=
  List.all_takeWhile

theorem wordEnds_behindWord (chars : List Char) : WordEnds (behindWord chars) := by
  intro c hc
  have hhead := List.head?_dropWhile_not isWordChar chars
  rw [← behindWord, Option.mem_def.1 hc] at hhead
  simpa using hhead

/-- There is a first character, and it is no digit. -/
def startsName : List Char → Bool
  | [] => false
  | c :: _ => !c.isDigit

theorem fails_identStart (h : ∀ c ∈ chars.head?, c.isAlpha = false ∧ c ≠ '_') :
    Fails grammar .atomic identStart chars := by
  cases chars with
  | nil => exact fun pos => .of_outcome (n := 5) rfl (by simp)
  | cons c chars =>
      obtain ⟨halpha, hunder⟩ := h c rfl
      exact fails_tight [c]
        (by simp [identStart, refuses, CharClass.holds, differ, Pattern.lit, halpha, hunder])

theorem isAlpha_of_startsName {c : Char} (hs : startsName (c :: word) = true)
    (hc : isWordChar c = true) : c.isAlpha = true ∨ c = '_' := by
  simp only [startsName, Bool.not_eq_true'] at hs
  simpa [isWordChar, Char.isAlphanum, hs] using hc

theorem not_isAlpha_of_isDigit {c : Char} (h : c.isDigit = true) : c.isAlpha = false := by
  unfold Char.isAlpha Char.isUpper Char.isLower
  simp [Char.isDigit, UInt32.le_iff_toNat_le] at h ⊢
  omega

theorem not_isAlpha_of_not_startsName (hs : startsName word = false) (hr : WordEnds rest) :
    ∀ c ∈ (word ++ rest).head?, c.isAlpha = false ∧ c ≠ '_' := by
  intro c hc
  cases word with
  | nil =>
      have hword := hr c hc
      simp only [isWordChar, Char.isAlphanum, Bool.or_eq_false_iff, beq_eq_false_iff_ne] at hword
      exact ⟨hword.1.1, hword.2⟩
  | cons d word =>
      obtain rfl : d = c := by simpa using hc
      simp only [startsName, Bool.not_eq_false'] at hs
      refine ⟨not_isAlpha_of_isDigit hs, ?_⟩
      rintro rfl
      revert hs
      decide

theorem ne_of_not_mem_keywords (h : String.ofList word ∉ keywords) :
    ∀ w ∈ keywords, w.toList ≠ word := by
  rintro w hw rfl
  exact h (String.ofList_toList ▸ hw)

section

variable (hw : isWord word = true) (hr : WordEnds rest)

include hw hr

theorem yields_keyword (mode : Mode) (pos : Nat) :
    Yields grammar mode.spacing (.rule keyword) ⟨pos, word ++ rest⟩
      (if String.ofList word ∈ keywords then tokenAt keyword mode pos word rest else .failed) := by
  by_cases hk : String.ofList word ∈ keywords
  · rw [if_pos hk]
    have htakes := takes_keyword hk hr
    rw [String.toList_ofList] at htakes
    exact yields_of_takes rfl htakes mode pos
  · rw [if_neg hk]
    exact fails_keyword hw hr (ne_of_not_mem_keywords hk) pos

theorem yields_ident (mode : Mode) (pos : Nat) :
    Yields grammar mode.spacing (.rule ident) ⟨pos, word ++ rest⟩
      (if startsName word = true ∧ String.ofList word ∉ keywords then
        tokenAt ident mode pos word rest else .failed) := by
  by_cases hk : String.ofList word ∈ keywords
  · rw [if_neg (fun h => h.2 hk)]
    have hfails := fails_ident_of_keyword hk hr (s := mode.spacing) pos
    rwa [String.toList_ofList] at hfails
  · have hkeyword := ne_of_not_mem_keywords hk
    cases hs : startsName word with
    | true =>
        rw [if_pos ⟨rfl, hk⟩]
        cases word with
        | nil => cases hs
        | cons c word =>
            have hchars := hw
            rw [isWord, List.all_cons, Bool.and_eq_true_iff] at hchars
            refine yields_of_takes rfl (takes_ident_of_fieldName hw hkeyword hr ?_) mode pos
            exact takes_fieldName_of_word (isAlpha_of_startsName hs hchars.1) hchars.2 hr
    | false =>
        rw [if_neg (by simp)]
        -- no reserved word stands here, so the first character decides
        refine yields_of_fails rfl (fun pos => ?_) _ pos
        refine .seq_failed (.notAhead (fails_keyword hw hr hkeyword pos))
          (.blank_tight (by decide)) ?_
        exact .seq_failed_left (fails_identStart (not_isAlpha_of_not_startsName hs hr) pos)

theorem yields_wholeWord {text : String} (hbody : r.body = wholeWord text) (hk : r.kind = .atomic)
    (ht : isWord text.toList = true) (mode : Mode) (pos : Nat) :
    Yields grammar mode.spacing (.rule r) ⟨pos, word ++ rest⟩
      (if word = text.toList then tokenAt r mode pos word rest else .failed) := by
  by_cases hsame : word = text.toList
  · rw [if_pos hsame]
    subst hsame
    exact yields_of_takes hk (hbody ▸ takes_wholeWord text hr) mode pos
  · rw [if_neg hsame]
    exact yields_of_fails hk (hbody ▸ fails_wholeWord ht hw hr (Ne.symm hsame)) _ pos

end

/-- A name is taken exactly if the whole word here begins with no digit and is none of the reserved
words, a reserved word exactly if the whole word here is it, and so with the words that stand for a
value. What is taken is the whole word. -/
theorem words_taken_exactly (mode : Mode) (pos : Nat) (chars : List Char) (log : Attempts Rule)
    (n : Nat) (hn : depthFor chars.length ≤ n) :
    (eval grammar n (.rule ident) mode ⟨pos, chars⟩ log).1
        = (if startsName (wordAt chars) = true ∧ String.ofList (wordAt chars) ∉ keywords then
          tokenAt ident mode pos (wordAt chars) (behindWord chars) else .failed) ∧
      (eval grammar n (.rule keyword) mode ⟨pos, chars⟩ log).1
        = (if String.ofList (wordAt chars) ∈ keywords then
          tokenAt keyword mode pos (wordAt chars) (behindWord chars) else .failed) ∧
      (∀ w : Word, (eval grammar n (.rule (.word w)) mode ⟨pos, chars⟩ log).1
        = if wordAt chars = w.text.toList then
          tokenAt (.word w) mode pos (wordAt chars) (behindWord chars) else .failed) ∧
      ∀ l : Literal, (eval grammar n (.rule (.literal l)) mode ⟨pos, chars⟩ log).1
        = if wordAt chars = l.text.toList then
          tokenAt (.literal l) mode pos (wordAt chars) (behindWord chars) else .failed := by
  have hw := isWord_wordAt chars
  have hr := wordEnds_behindWord chars
  have heval : ∀ {r o}, Yields grammar mode.spacing (.rule r)
      ⟨pos, wordAt chars ++ behindWord chars⟩ o →
        (eval grammar n (.rule r) mode ⟨pos, chars⟩ log).1 = o := by
    intro r o h
    rw [wordAt_append_behindWord] at h
    exact eval_of_yields h (eval_ne_exhausted r hn mode log)
  refine ⟨heval (yields_ident hw hr mode pos), heval (yields_keyword hw hr mode pos),
    fun w => heval ?_, fun l => heval ?_⟩
  · exact yields_wholeWord hw hr rfl rfl (by cases w <;> decide) mode pos
  · exact yields_wholeWord hw hr rfl rfl (by cases l <;> decide) mode pos

/-- A word that goes on where a reserved word ends is a name. -/
theorem words_taken_exactly_waittillx :
    depthFor "waittillx=1".toList.length ≤ 49152 ∧
      (eval grammar 49152 (.rule ident) .initial ⟨7, "waittillx=1".toList⟩ .empty).1
        = tokenAt ident .initial 7 "waittillx".toList "=1".toList ∧
      (eval grammar 49152 (.rule (.word .waitTillWord)) .initial ⟨7, "waittillx=1".toList⟩ .empty).1
        = .failed := by
  have hdepth : depthFor "waittillx=1".toList.length ≤ 49152 := by decide
  obtain ⟨hident, -, hword, -⟩ :=
    words_taken_exactly .initial 7 "waittillx=1".toList .empty 49152 hdepth
  refine ⟨hdepth, hident.trans (if_pos (by decide)), ?_⟩
  exact (hword .waitTillWord).trans (if_neg (by decide))

/-! ## Strings -/

/-- Characters inside quotes: a backslash has another character behind it, and no quote stands
alone. -/
inductive StringBody : List Char → Prop
  | nil : StringBody []
  | plain {c : Char} {chars : List Char} (hquote : c ≠ '"') (hslash : c ≠ '\\')
      (h : StringBody chars) : StringBody (c :: chars)
  | escaped (c : Char) {chars : List Char} (h : StringBody chars) : StringBody ('\\' :: c :: chars)

namespace StringBody

theorem takes (h : StringBody front) (hstop : Fails grammar .atomic stringChar rest) :
    TakesMore grammar stringChar front rest ∧ Takes grammar (.star stringChar) front rest := by
  induction h with
  | nil => exact ⟨.stop hstop, .star_none hstop⟩
  | @plain c chars hquote hslash _ ih =>
      have hchar : Takes grammar stringChar [c] (chars ++ rest) := takes_unescaped hquote hslash
      exact ⟨.next hchar ih.1, .star hchar ih.1⟩
  | @escaped c chars _ ih =>
      have hchar : Takes grammar stringChar ['\\', c] (chars ++ rest) := takes_escaped c
      exact ⟨.next hchar ih.1, .star hchar ih.1⟩

/-- Every text begins with such characters, and then comes a quote, a last backslash or nothing. -/
theorem exists_front (chars : List Char) : ∃ front rest, chars = front ++ rest ∧ StringBody front ∧
    (rest = [] ∨ rest = ['\\'] ∨ ∃ behind, rest = '"' :: behind) := by
  induction hlength : chars.length using Nat.strong_induction_on generalizing chars with
  | _ length ih =>
      subst hlength
      cases chars with
      | nil => exact ⟨[], [], rfl, .nil, .inl rfl⟩
      | cons c chars =>
          by_cases hquote : c = '"'
          · subst hquote
            exact ⟨[], _, rfl, .nil, .inr (.inr ⟨chars, rfl⟩)⟩
          by_cases hslash : c = '\\'
          · subst hslash
            cases chars with
            | nil => exact ⟨[], _, rfl, .nil, .inr (.inl rfl)⟩
            | cons d chars =>
                have hless : chars.length < ('\\' :: d :: chars).length := by
                  simp only [List.length_cons]
                  omega
                obtain ⟨front, rest, rfl, hfront, hrest⟩ := ih _ hless chars rfl
                exact ⟨_, rest, rfl, .escaped d hfront, hrest⟩
          · have hless : chars.length < (c :: chars).length := Nat.lt_succ_self _
            obtain ⟨front, rest, rfl, hfront, hrest⟩ := ih _ hless chars rfl
            exact ⟨_, rest, rfl, .plain hquote hslash hfront, hrest⟩

end StringBody

/-- An odd number of backslashes stands at the end of a text. -/
def EscapesNext (front : List Char) : Prop := (front.rtakeWhile (· = '\\')).length % 2 = 1

/-- Whether the last character of a text escapes the next one, found from left to right. -/
def escapes (front : List Char) : Bool := front.foldl (fun escaped c => !escaped && c = '\\') false

theorem escapesNext_iff (front : List Char) : EscapesNext front ↔ escapes front = true := by
  induction front using List.reverseRecOn with
  | nil => simp [EscapesNext, escapes]
  | append_singleton front c ih =>
      rw [EscapesNext, escapes] at ih ⊢
      rw [List.rtakeWhile_concat, List.foldl_append]
      by_cases hc : c = '\\'
      · simp only [hc, decide_true, if_true, List.length_append, List.length_singleton,
          List.foldl_cons, List.foldl_nil, Bool.and_true, Bool.not_eq_true', ← Bool.not_eq_true,
          ← ih]
        omega
      · simp [hc]

@[simp] theorem escapes_plain {c : Char} (hc : c ≠ '\\') (chars : List Char) :
    escapes (c :: chars) = escapes chars := by
  simp [escapes, hc]

@[simp] theorem escapes_escaped (c : Char) (chars : List Char) :
    escapes ('\\' :: c :: chars) = escapes chars := by
  simp [escapes]

namespace StringBody

theorem escapes_eq_false (h : StringBody front) : escapes front = false := by
  induction h with
  | nil => rfl
  | plain _ hslash _ ih => rw [escapes_plain hslash, ih]
  | escaped c _ ih => rw [escapes_escaped, ih]

/-- Every quote among such characters is escaped. -/
theorem escapes_before {before behind : List Char} (h : StringBody front)
    (hfront : front = before ++ '"' :: behind) : escapes before = true := by
  induction h generalizing before with
  | nil => simp at hfront
  | plain hquote hslash _ ih =>
      cases before with
      | nil => exact (hquote (List.cons.inj hfront).1).elim
      | cons c before =>
          obtain ⟨rfl, hrest⟩ := List.cons.inj hfront
          rw [escapes_plain hslash, ih hrest]
  | escaped c _ ih =>
      match before with
      | [] => simp at hfront
      | [d] =>
          obtain ⟨rfl, -⟩ := List.cons.inj hfront
          rfl
      | d :: e :: before =>
          simp only [List.cons_append, List.cons.injEq] at hfront
          obtain ⟨rfl, rfl, hrest⟩ := hfront
          rw [escapes_escaped, ih hrest]

end StringBody

/-- Behind `front` stands the first quote of a text that no backslash escapes, and then `rest`. -/
structure Closes (chars front rest : List Char) : Prop where
  split : chars = front ++ '"' :: rest
  unescaped : ¬ EscapesNext front
  first : ∀ front' rest', chars = front' ++ '"' :: rest' → front'.length < front.length →
    EscapesNext front'

theorem Closes.unique {front' rest' : List Char} (h : Closes chars front rest)
    (h' : Closes chars front' rest') : front = front' ∧ rest = rest' := by
  have hlength : front.length = front'.length := by
    rcases Nat.lt_trichotomy front.length front'.length with hlt | heq | hgt
    · exact (h.unescaped (h'.first _ _ h.split hlt)).elim
    · exact heq
    · exact (h'.unescaped (h.first _ _ h'.split hgt)).elim
  obtain ⟨hfront, hrest⟩ := List.append_inj (h.split.symm.trans h'.split) hlength
  exact ⟨hfront, (List.cons.inj hrest).2⟩

/-- A character of a text that is cut in two lies in the one part or in the other. -/
theorem cut_cases {before behind : List Char} {c : Char}
    (h : front ++ rest = before ++ c :: behind) :
    (∃ middle, front = before ++ c :: middle) ∨
      ∃ middle, before = front ++ middle ∧ rest = middle ++ c :: behind := by
  rcases List.append_eq_append_iff.1 h with ⟨middle, hmiddle⟩ | ⟨middle, rfl, hmiddle⟩
  · exact .inr ⟨middle, hmiddle⟩
  · cases middle with
    | nil => exact .inr ⟨[], by simp, hmiddle.symm⟩
    | cons d middle =>
        obtain ⟨rfl, -⟩ := List.cons.inj hmiddle
        exact .inl ⟨middle, rfl⟩

theorem StringBody.closes (h : StringBody front) (rest : List Char) :
    Closes (front ++ '"' :: rest) front rest where
  split := rfl
  unescaped := by simp [escapesNext_iff, h.escapes_eq_false]
  first := by
    intro front' rest' hsplit hlt
    rcases cut_cases hsplit with ⟨middle, hmiddle⟩ | ⟨middle, rfl, -⟩
    · exact (escapesNext_iff front').2 (h.escapes_before hmiddle)
    · simp only [List.length_append] at hlt
      omega

theorem stringBody_of_closes (h : Closes chars front rest) : StringBody front := by
  obtain ⟨front', rest', rfl, hbody, hrest⟩ := StringBody.exists_front chars
  rcases cut_cases h.split with ⟨middle, hmiddle⟩ | ⟨middle, -, hmiddle⟩
  · have hescapes := (escapesNext_iff front).2 (hbody.escapes_before hmiddle)
    exact (h.unescaped hescapes).elim
  · have hquote : '"' ∈ rest' := by simp [hmiddle]
    rcases hrest with rfl | rfl | ⟨behind, rfl⟩
    · simp at hquote
    · simp at hquote
    · rw [(h.unique (hbody.closes behind)).1]
      exact hbody

/-! ### The rule for strings -/

/-- Behind the last whole character of a text there is neither another one nor a quote. -/
theorem fails_of_end (h : rest = [] ∨ rest = ['\\']) :
    Fails grammar .atomic stringChar rest ∧ Fails grammar .atomic (.lit "\"") rest := by
  rcases h with rfl | rfl
  all_goals
    constructor
    · exact fun pos => .of_outcome (n := 9) rfl (by simp)
    · exact fun pos => .of_outcome (n := 9) rfl (by simp)

theorem StringBody.takes_string (h : StringBody front) (rest : List Char) :
    Takes grammar (body string) ('"' :: (front ++ ['"'])) rest := by
  have hopen : Takes grammar (.lit "\"") ['"'] ((front ++ ['"']) ++ rest) := .text
  exact hopen.seq (.seq (h.takes fails_stringChar).2 .text)

theorem StringBody.yields_string (h : StringBody front) (rest : List Char) (mode : Mode)
    (pos : Nat) : Yields grammar mode.spacing (.rule string) ⟨pos, '"' :: (front ++ '"' :: rest)⟩
      (tokenAt string mode pos ('"' :: (front ++ ['"'])) rest) := by
  have hyields := yields_of_takes rfl (h.takes_string rest) mode pos
  rwa [show '"' :: (front ++ ['"']) ++ rest = '"' :: (front ++ '"' :: rest) by simp] at hyields

theorem StringBody.fails_string (h : StringBody front) (hrest : rest = [] ∨ rest = ['\\']) :
    Fails grammar .atomic (body string) ('"' :: (front ++ rest)) := by
  intro pos
  have hopen : Takes grammar (.lit "\"") ['"'] (front ++ rest) := .text
  obtain ⟨hstop, hclose⟩ := fails_of_end hrest
  have hchars := (h.takes hstop).2
  exact (hopen pos).seq_failed (.blank_tight (by decide))
    ((hchars _).seq_failed (.blank_tight (by decide)) (hclose _))

/-- A text begins with a string that is closed, or the rule for strings fails. -/
theorem string_cases (chars : List Char) :
    (∃ front rest, chars = '"' :: (front ++ '"' :: rest) ∧ StringBody front) ∨
      Fails grammar .atomic (body string) chars := by
  rcases text_cases (s := .atomic) ['"'] chars with ⟨more, rfl⟩ | hfails
  · obtain ⟨front, rest, rfl, hbody, hrest⟩ := StringBody.exists_front more
    rcases hrest with hrest | hrest | ⟨behind, rfl⟩
    · exact .inr (hbody.fails_string (.inl hrest))
    · exact .inr (hbody.fails_string (.inr hrest))
    · exact .inl ⟨front, behind, rfl, hbody⟩
  · exact .inr fun pos => .seq_failed_left (hfails pos)

end Script

namespace Lexeme

/-- As `unescape`, but nothing is made of a backslash that has no character behind it. -/
def unescape? : List Char → Option (List Char)
  | [] => some []
  | ['\\'] => none
  | '\\' :: 'n' :: rest => (unescape? rest).map ('\n' :: ·)
  | '\\' :: 't' :: rest => (unescape? rest).map ('\t' :: ·)
  | '\\' :: 'r' :: rest => (unescape? rest).map ('\r' :: ·)
  | '\\' :: c :: rest => (unescape? rest).map (c :: ·)
  | c :: rest => (unescape? rest).map (c :: ·)

end Lexeme

namespace Script

open Rule

variable {front rest : List Char}

theorem StringBody.unescape?_eq (h : StringBody front) :
    Lexeme.unescape? front = some (Lexeme.unescape front) := by
  induction h with
  | nil => rfl
  | plain _ hslash _ ih => simp [Lexeme.unescape?, Lexeme.unescape, hslash, ih]
  | escaped c _ ih =>
      by_cases hn : c = 'n'
      · simp [hn, Lexeme.unescape?, Lexeme.unescape, ih]
      by_cases ht : c = 't'
      · simp [ht, Lexeme.unescape?, Lexeme.unescape, ih]
      by_cases hr : c = 'r'
      · simp [hr, Lexeme.unescape?, Lexeme.unescape, ih]
      simp [Lexeme.unescape?, Lexeme.unescape, ih]

theorem unwrap?_quoted (front : List Char) :
    Lexeme.unwrap? ('"' :: (front ++ ['"'])) = some front := by
  simp [Lexeme.unwrap?]

/-- Every text in quotes, with a backslash before each quote and each backslash, is taken as a
string up to its last quote and means the text. Whatever is taken as a string ends at the first
quote that no odd row of backslashes escapes, and no backslash in it is left without a character;
and where such a quote stands, a string is taken. -/
theorem strings_taken_exactly (mode : Mode) (pos : Nat) (log : Attempts Rule) (n : Nat) :
    (∀ (text : String) (rest : List Char), depthFor (quote text.toList ++ rest).length ≤ n →
      (eval grammar n (.rule string) mode ⟨pos, quote text.toList ++ rest⟩ log).1
          = tokenAt string mode pos (quote text.toList) rest ∧
        Lexeme.unquote (quote text.toList) = text) ∧
    (∀ chars front rest, Closes chars front rest → depthFor (chars.length + 1) ≤ n →
      (eval grammar n (.rule string) mode ⟨pos, '"' :: chars⟩ log).1
        = tokenAt string mode pos ('"' :: (front ++ ['"'])) rest) ∧
    ∀ chars trees after,
      (eval grammar n (.rule string) mode ⟨pos, chars⟩ log).1 = .matched trees after →
      ∃ front, chars = '"' :: (front ++ '"' :: after.rest) ∧
        Closes (front ++ '"' :: after.rest) front after.rest ∧
        after.pos = pos + utf8Length ('"' :: (front ++ ['"'])) ∧
        Lexeme.unwrap? ('"' :: (front ++ ['"'])) = some front ∧
        Lexeme.unescape? front = some (Lexeme.unquote ('"' :: (front ++ ['"']))).toList := by
  refine ⟨fun text rest hn => ⟨?_, unquote_quote text⟩, fun chars front rest h hn => ?_,
    fun chars trees after h => ?_⟩
  · exact eval_of_yields (yields_of_takes rfl (takes_string text.toList) mode pos)
      (eval_ne_exhausted string hn mode log)
  · have hyields := (stringBody_of_closes h).yields_string rest mode pos
    rw [← h.split] at hyields
    exact eval_of_yields hyields (eval_ne_exhausted string hn mode log)
  · have hend : (eval grammar n (.rule string) mode ⟨pos, chars⟩ log).1 ≠ .exhausted := by
      simp [h]
    rcases string_cases chars with ⟨front, rest, rfl, hbody⟩ | hfails
    · have htoken := (eval_of_yields (hbody.yields_string rest mode pos) hend).symm.trans h
      rw [tokenAt, Outcome.matched.injEq] at htoken
      obtain ⟨-, rfl⟩ := htoken
      refine ⟨front, rfl, hbody.closes rest, rfl, unwrap?_quoted front, ?_⟩
      rw [hbody.unescape?_eq, Lexeme.unquote, unwrap?_quoted, Option.getD_some,
        String.toList_ofList]
    · have hfailed := eval_of_yields (yields_of_fails rfl hfails mode.spacing pos) hend
      cases hfailed.symm.trans h

/-- A text with a quote, a line feed and a backslash at its end. -/
def mixedText : String := "é\"\n\\"

theorem strings_taken_exactly_mixedText :
    depthFor (quote mixedText.toList ++ ['"', 'x']).length ≤ 45056 ∧
      (eval grammar 45056 (.rule string) .initial
          ⟨3, quote mixedText.toList ++ ['"', 'x']⟩ .empty).1
        = tokenAt string .initial 3 (quote mixedText.toList) ['"', 'x'] ∧
      Lexeme.unquote (quote mixedText.toList) = mixedText ∧
      ∃ front, quote mixedText.toList ++ ['"', 'x'] = '"' :: (front ++ ['"', '"', 'x']) ∧
        Closes (front ++ ['"', '"', 'x']) front ['"', 'x'] := by
  have hdepth : depthFor (quote mixedText.toList ++ ['"', 'x']).length ≤ 45056 := by decide
  obtain ⟨hquoted, -, hends⟩ := strings_taken_exactly .initial 3 .empty 45056
  obtain ⟨htaken, hvalue⟩ := hquoted mixedText ['"', 'x'] hdepth
  obtain ⟨front, hchars, hcloses, -⟩ := hends _ _ _ htaken
  exact ⟨hdepth, htaken, hvalue, front, hchars, hcloses⟩

end Script

end Gsc
