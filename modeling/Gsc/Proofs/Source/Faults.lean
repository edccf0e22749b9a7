import Gsc.Compile
import Gsc.Proofs.Except
import Gsc.Proofs.Source.Excerpts
import Gsc.Proofs.Utf8
import Mathlib.Order.Bounds.Basic

/-! # Scripts that are no text

The first fault of a byte string stands behind the longest text that begins it. The decoding with
replacement characters has the same text in front of its first replacement for a fault, so that an
offset into the bytes is the offset of that replacement in the decoded text.
-/

namespace Gsc

open Gsc.Peg

namespace Utf8

variable {bytes : Bytes} {front : List Char}

def IsText (bytes : Bytes) : Prop := ∃ chars, bytes = encode chars

/-- The first fault of a byte string stands right behind some text. -/
def FaultBehind (bytes : Bytes) (front : List Char) : Prop :=
  ∃ b rest, bytes = encode front ++ b :: rest ∧ (next b rest).1 = none

theorem exists_faultBehind (h : ¬ IsText bytes) : ∃ front, FaultBehind bytes front :=
  (exists_text_or_fault bytes).resolve_left h

theorem prefix_of_map_some_append {chars front : List Char} {more behind : List (Option Char)}
    (h : chars.map some ++ more = front.map some ++ none :: behind) : chars <+: front := by
  induction chars generalizing front with
  | nil => exact List.nil_prefix
  | cons c chars ih =>
      cases front with
      | nil => cases h
      | cons d front =>
          simp only [List.map_cons, List.cons_append, List.cons.injEq, Option.some.injEq] at h
          exact List.cons_prefix_cons.2 ⟨h.1, ih h.2⟩

namespace FaultBehind

theorem take_eq (h : FaultBehind bytes front) :
    bytes.take (utf8Length front) = encode front := by
  obtain ⟨b, rest, rfl, -⟩ := h
  exact List.take_left

theorem exists_decodeAll (h : FaultBehind bytes front) :
    ∃ behind, decodeAll bytes = front.map some ++ none :: decodeAll behind := by
  obtain ⟨b, rest, rfl, hfault⟩ := h
  exact ⟨(next b rest).2, by rw [decodeAll_encode_append, decodeAll, hfault, Option.map_none]⟩

theorem decode?_eq_none (h : FaultBehind bytes front) : decode? bytes = none := by
  obtain ⟨behind, hall⟩ := h.exists_decodeAll
  rw [decode?, hall, List.mapM_append]
  cases (front.map some).mapM id with
  | none => rfl
  | some chars => simp [List.mapM_cons]

theorem validLength_eq (h : FaultBehind bytes front) : validLength bytes = utf8Length front := by
  obtain ⟨behind, hall⟩ := h.exists_decodeAll
  have htext : ((decodeAll bytes).takeWhile Option.isSome).filterMap id = front := by
    rw [hall, List.takeWhile_append_of_pos (by simp), List.takeWhile_cons]
    simp
  rw [validLength, htext, utf8Length]

theorem exists_decodeLossy (h : FaultBehind bytes front) :
    ∃ back, decodeLossy bytes = front ++ Char.ofNat 0xfffd :: back := by
  obtain ⟨behind, hall⟩ := h.exists_decodeAll
  exact ⟨decodeLossy behind, by simp [decodeLossy, hall]⟩

/-- A text that begins the byte string ends in front of the fault. -/
theorem prefix_of_encode_prefix (h : FaultBehind bytes front) {chars : List Char}
    (hchars : encode chars <+: bytes) : chars <+: front := by
  obtain ⟨behind, hall⟩ := h.exists_decodeAll
  obtain ⟨more, rfl⟩ := hchars
  rw [decodeAll_encode_append] at hall
  exact prefix_of_map_some_append hall

/-- The fault stands behind the longest text that begins the byte string. -/
theorem isGreatest (h : FaultBehind bytes front) :
    IsGreatest {n | n ≤ bytes.length ∧ IsText (bytes.take n)} (utf8Length front) := by
  refine ⟨⟨?_, front, h.take_eq⟩, ?_⟩
  · obtain ⟨b, rest, rfl, -⟩ := h
    rw [List.length_append]
    exact Nat.le_add_right _ _
  · rintro n ⟨hn, chars, htake⟩
    obtain ⟨more, rfl⟩ := h.prefix_of_encode_prefix (htake ▸ List.take_prefix n bytes)
    have hlength : n = utf8Length chars := by
      rw [utf8Length, ← htake, List.length_take_of_le hn]
    rw [hlength, utf8Length_append]
    exact Nat.le_add_right _ _

end FaultBehind

end Utf8

/-- What is said of a script that is no text: its first `k` bytes are the longest text it begins
with, the decoded text has the same bytes in front of a replacement character, and the one
diagnostic shows the line and the column of that character. -/
structure CompileError.LocatesFault (e : CompileError) (script : String) (bytes : Bytes) (k : Nat) :
    Prop where
  name : e.source.name = script
  longest : IsGreatest {n | n ≤ bytes.length ∧ Utf8.IsText (bytes.take n)} k
  diagnostics : e.diagnostics = [⟨"script source is not valid UTF-8", some (.point k), []⟩]
  content : ∃ front back, e.source.content = front ++ Char.ofNat 0xfffd :: back ∧
    Utf8.encode front = bytes.take k ∧ (e.source.position k).Behind front
  shown : ∃ text, (e.source.position k).Names e.source.content text (Char.ofNat 0xfffd) ∧
    HasLine e.message (Source.numberedLine (e.source.position k).line text)
  message : ∃ excerpt, e.message = "error: script source is not valid UTF-8\n  --> " ++ script
    ++ ":" ++ toString (e.source.position k).line ++ ":" ++ toString (e.source.position k).column
    ++ "\n" ++ excerpt

theorem exists_compile_of_faultBehind (name : String) {bytes : Bytes} {front : List Char}
    (h : Utf8.FaultBehind bytes front) :
    ∃ back, compile name bytes = .error ⟨⟨name, front ++ Char.ofNat 0xfffd :: back⟩,
      [⟨"script source is not valid UTF-8", some (.point (utf8Length front)), []⟩]⟩ := by
  obtain ⟨back, hlossy⟩ := h.exists_decodeLossy
  refine ⟨back, ?_⟩
  simp only [compile, parseSource, h.decode?_eq_none, hlossy, notUtf8, h.validLength_eq]

/-- A script that is no text fails with one diagnostic, at the first fault. -/
theorem compile_locates_fault (name : String) {bytes : Bytes} (h : ¬ Utf8.IsText bytes) :
    ∃ e k, compile name bytes = .error e ∧ e.LocatesFault name bytes k := by
  obtain ⟨front, hfault⟩ := Utf8.exists_faultBehind h
  obtain ⟨back, hcompile⟩ := exists_compile_of_faultBehind name hfault
  refine ⟨_, utf8Length front, hcompile, ?_⟩
  generalize hsource : (⟨name, front ++ Char.ofNat 0xfffd :: back⟩ : Source) = source
  have hname : source.name = name := by rw [← hsource]
  have hcontent : source.content = front ++ Char.ofNat 0xfffd :: back := by rw [← hsource]
  have hposition : source.position (utf8Length front) = front.foldl .step .first := by
    rw [Source.position, hcontent, Position.ofOffset_append]
  have hholds : HoldsAt source.content (utf8Length front) (Char.ofNat 0xfffd) :=
    ⟨front, back, hcontent, rfl, by decide, by simp⟩
  obtain ⟨text, hnames⟩ : ∃ text, (source.position (utf8Length front)).Names source.content text
    (Char.ofNat 0xfffd) := hholds.names
  have hrow := source.hasLine_snippet hnames.line_pos hnames.line 1
  refine ⟨hname, hfault.isGreatest, rfl, ⟨front, back, hcontent, hfault.take_eq.symm, ?_⟩,
    ⟨text, hnames, ?_⟩, ?_⟩
  · rw [hposition]
    exact Position.behind_foldl_step front
  · rw [CompileError.message, Diagnostic.renderAll, List.map_singleton,
      String.intercalate_singleton]
    exact Diagnostic.hasLine_render rfl hnames.line_pos hnames.line
  · rw [CompileError.message, Diagnostic.renderAll, List.map_singleton,
      String.intercalate_singleton, Diagnostic.render_of_span rfl
        (hrow.ne_empty (Source.numberedLine_ne_empty _ text))]
    refine ⟨source.snippet (source.position (utf8Length front)).line 1 ++ "\n", ?_⟩
    have hheading : "error: script source is not valid UTF-8\n  --> "
        = "error: " ++ "script source is not valid UTF-8" ++ "\n" ++ "  --> " := by decide
    simp only [Diagnostic.heading, Diagnostic.headline, hname, hheading, List.map_nil,
      String.join_nil, String.append_empty, String.append_assoc]

/-- A replacement character that was written as such, and half of a surrogate pair behind it. -/
def surrogateScript : Bytes := [0x66, 0x0a, 0xef, 0xbf, 0xbd, 0xed, 0xa0, 0x80]

theorem compile_surrogateScript :
    ¬ Utf8.IsText surrogateScript ∧ ∃ e, compile "s" surrogateScript = .error e ∧
      e.LocatesFault "s" surrogateScript 5 ∧ e.source.position 5 = ⟨2, 2⟩ := by
  have hnone : ¬ Utf8.IsText surrogateScript := by
    rintro ⟨chars, hchars⟩
    have hfault : Utf8.decode? surrogateScript = none := by decide +kernel
    rw [hchars, Utf8.decode?_encode] at hfault
    cases hfault
  obtain ⟨e, k, he, hlocates⟩ := compile_locates_fault "s" hnone
  have hreport : errorOf? (compile "s" surrogateScript) = some
      ⟨⟨"s", "f\n\ufffd\ufffd\ufffd\ufffd".toList⟩,
        [⟨"script source is not valid UTF-8", some (.point 5), []⟩]⟩ := by decide +kernel
  obtain rfl := Except.error.inj (he.symm.trans (eq_error_of_errorOf? hreport))
  obtain rfl : 5 = k := by simpa [Span.point] using hlocates.diagnostics
  exact ⟨hnone, _, he, hlocates, by decide +kernel⟩

end Gsc
