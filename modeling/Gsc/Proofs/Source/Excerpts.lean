import Gsc.Proofs.Lists
import Gsc.Proofs.Source.Positions
import Gsc.Source.Diagnostic

/-! # What a diagnostic shows

The lines around a position are always there to be taken, and the line of the position is among
them with its number. So a diagnostic about a character shows the line the character stands in.
-/

namespace Gsc

open Gsc.Peg

/-! ## Whole lines of a text -/

/-- A row is a whole line of a text: line feeds or the ends of the text stand around it. -/
def HasLine (text row : String) : Prop :=
  ∃ front back, "\n" ++ text ++ "\n" = front ++ ("\n" ++ row ++ "\n") ++ back

namespace HasLine

theorem intercalate {rows : List String} {row : String} (h : row ∈ rows) :
    HasLine ("\n".intercalate rows) row := by
  induction rows with
  | nil => cases h
  | cons first rows ih =>
      cases rows with
      | nil =>
          rw [List.mem_singleton.1 h, String.intercalate_singleton]
          exact ⟨"", "", by rw [String.append_empty, String.empty_append]⟩
      | cons second rows =>
          rw [String.intercalate_cons_cons]
          rcases List.mem_cons.1 h with rfl | h
          · exact ⟨"", "\n".intercalate (second :: rows) ++ "\n",
              by simp only [String.append_assoc, String.empty_append]⟩
          · obtain ⟨front, back, hrow⟩ := ih h
            have hsplit : "\n" ++ (first ++ "\n" ++ "\n".intercalate (second :: rows)) ++ "\n"
                = "\n" ++ first ++ ("\n" ++ "\n".intercalate (second :: rows) ++ "\n") := by
              simp only [String.append_assoc]
            refine ⟨"\n" ++ first ++ front, back, ?_⟩
            rw [hsplit, hrow]
            simp only [String.append_assoc]

theorem ne_empty {text row : String} (h : HasLine text row) (hrow : row ≠ "") : text ≠ "" := by
  rintro rfl
  obtain ⟨front, back, h⟩ := h
  have hlength := congrArg String.length h
  have hpos : 0 < row.length := Nat.pos_of_ne_zero fun hzero =>
    hrow (String.length_eq_zero_iff.1 hzero)
  simp only [String.length_append] at hlength
  rw [show "\n".length = 1 from rfl, show "".length = 0 from rfl] at hlength
  omega

/-- A line of a text is a line of any text around it that sets it off. -/
theorem within {text row : String} (h : HasLine text row) (front back : String) :
    HasLine (front ++ "\n" ++ text ++ "\n" ++ back) row := by
  obtain ⟨before, after, hrow⟩ := h
  refine ⟨"\n" ++ front ++ before, after ++ back ++ "\n", ?_⟩
  have hsplit : "\n" ++ (front ++ "\n" ++ text ++ "\n" ++ back) ++ "\n"
      = "\n" ++ front ++ ("\n" ++ text ++ "\n") ++ (back ++ "\n") := by
    simp only [String.append_assoc]
  rw [hsplit, hrow]
  simp only [String.append_assoc]

end HasLine

/-! ## Excerpts -/

def wordSum? (a b : Nat) : Option Nat := if a + b < UInt64.size then some (a + b) else none

namespace Source

def numberedLine (number : Nat) (line : List Char) : String :=
  Text.decimal 4 number ++ " | " ++ String.ofList line

theorem numberedLine_ne_empty (number : Nat) (line : List Char) :
    numberedLine number line ≠ "" := by
  intro h
  have hlength := congrArg String.length h
  rw [numberedLine, String.length_append, String.length_append] at hlength
  have hbar : " | ".length = 3 := rfl
  have hnone : "".length = 0 := rfl
  omega

theorem mem_numbered {lines : List (List Char)} {text : List Char} {i : Nat} (number : Nat)
    (h : lines[i]? = some text) : numberedLine (number + i) text ∈ numbered number lines := by
  induction lines generalizing number i with
  | nil => cases h
  | cons line lines ih =>
      cases i with
      | zero =>
          cases h
          exact List.mem_cons_self
      | succ i =>
          rw [Nat.add_succ, ← Nat.succ_add]
          exact List.mem_cons_of_mem _ (ih (number + 1) h)

/-- The lines around a line, with sums in machine words and with lines taken from their places. -/
def excerpt? (s : Source) (line context : Nat) : Option String := do
  let lines := linesOf s.content
  let start := min (line - (← wordSum? context 1)) lines.length
  let stop := min (← wordSum? line context) lines.length
  let shown ← slice? lines start stop
  return "\n".intercalate (numbered (start + 1) shown)

/-- Where the sums fit in a word, the lines around a line can be taken from their places. -/
theorem excerpt?_eq_some (s : Source) {line context : Nat}
    (h : line + context + 1 < UInt64.size) :
    s.excerpt? line context = some (s.snippet line context) := by
  have hmargin : wordSum? context 1 = some (context + 1) := if_pos (by omega)
  have hlast : wordSum? line context = some (line + context) := if_pos (by omega)
  have hplaces : min (line - (context + 1)) (linesOf s.content).length
      ≤ min (line + context) (linesOf s.content).length ∧
        min (line + context) (linesOf s.content).length ≤ (linesOf s.content).length := by omega
  rw [excerpt?, hmargin, hlast]
  simp only [bind, Option.bind, slice?, if_pos hplaces, snippet]
  rfl

/-- The excerpt around a line has the line in it, with its number. -/
theorem hasLine_snippet (s : Source) {line : Nat} {text : List Char} (hpos : 0 < line)
    (h : (linesOf s.content)[line - 1]? = some text) (context : Nat) :
    HasLine (s.snippet line context) (numberedLine line text) := by
  have hlt : line - 1 < (linesOf s.content).length := (List.getElem?_eq_some_iff.1 h).1
  let start := min (line - (context + 1)) (linesOf s.content).length
  let stop := min (line + context) (linesOf s.content).length
  have hshown : (((linesOf s.content).take stop).drop start)[line - 1 - start]? = some text := by
    rw [List.getElem?_drop, List.getElem?_take_of_lt (by omega), ← h]
    congr 1
    omega
  have hrow := mem_numbered (start + 1) hshown
  rw [show start + 1 + (line - 1 - start) = line by omega] at hrow
  exact HasLine.intercalate hrow

end Source

namespace Diagnostic

/-- A diagnostic without its excerpt: what stands in front of it, up to the end of a line. -/
def heading (source : Source) (d : Diagnostic) (p : Position) : String :=
  d.headline ++ ("  --> " ++ source.name ++ ":" ++ toString p.line ++ ":" ++ toString p.column)

theorem render_of_span {source : Source} {d : Diagnostic} {offset stop : Nat}
    (hspan : d.span = some ⟨offset, stop⟩)
    (hshown : source.snippet (source.position offset).line 1 ≠ "") :
    d.render source = d.heading source (source.position offset) ++ "\n"
      ++ source.snippet (source.position offset).line 1 ++ "\n"
      ++ String.join (d.notes.map fun note => "  = note: " ++ note ++ "\n") := by
  have hsome : ¬ (source.snippet (source.position offset).line 1).isEmpty = true := fun h =>
    hshown (String.isEmpty_iff.1 h)
  rw [render, hspan, heading]
  unfold place
  simp only [if_neg hsome, String.append_assoc]

/-- A diagnostic whose range begins in a line shows the line. -/
theorem hasLine_render {source : Source} {d : Diagnostic} {offset stop : Nat} {text : List Char}
    (hspan : d.span = some ⟨offset, stop⟩) (hpos : 0 < (source.position offset).line)
    (h : (linesOf source.content)[(source.position offset).line - 1]? = some text) :
    HasLine (d.render source) (Source.numberedLine (source.position offset).line text) := by
  have hrow := source.hasLine_snippet hpos h 1
  rw [render_of_span hspan (hrow.ne_empty (Source.numberedLine_ne_empty _ text))]
  exact hrow.within _ _

end Diagnostic

namespace Source

/-- What the position of an offset tells about the character there: it names the character, its line
can be taken with any number of lines around it that a machine word can count, and a diagnostic that
points there shows the line. -/
structure Locates (s : Source) (offset : Nat) (c : Char) (text : List Char) : Prop where
  names : (s.position offset).Names s.content text c
  taken : ∀ context, (s.position offset).line + context + 1 < UInt64.size →
    s.excerpt? (s.position offset).line context
      = some (s.snippet (s.position offset).line context)
  shown : ∀ context, (s.position offset).line + context + 1 < UInt64.size →
    HasLine (s.snippet (s.position offset).line context)
      (numberedLine (s.position offset).line text)
  rendered : ∀ (d : Diagnostic) (stop : Nat), d.span = some ⟨offset, stop⟩ →
    HasLine (d.render s) (numberedLine (s.position offset).line text)

/-- The position of a character that is no part of a line end leads to the character, and the
positions of such characters come in the order of their offsets. -/
theorem position_locates (s : Source) :
    (∀ offset c, HoldsAt s.content offset c → ∃ text, s.Locates offset c text) ∧
      StrictMonoOn (fun offset => (s.position offset).key)
        {offset | ∃ c, HoldsAt s.content offset c} ∧
      Set.InjOn s.position {offset | ∃ c, HoldsAt s.content offset c} := by
  have hmono := strictMonoOn_key_ofOffset s.content
  refine ⟨fun offset c h => ?_, hmono, fun offset h offset' h' hsame => ?_⟩
  · obtain ⟨text, hnames⟩ : ∃ text, (s.position offset).Names s.content text c := h.names
    refine ⟨text, hnames, fun context => s.excerpt?_eq_some, fun context _ => ?_,
      fun d stop hspan => ?_⟩
    · exact s.hasLine_snippet hnames.line_pos hnames.line context
    · exact Diagnostic.hasLine_render hspan hnames.line_pos hnames.line
  · exact hmono.injOn h h' (congrArg Position.key hsame)

/-- Lines that end in one and in two characters, and a last one without an end. -/
def mixedLineEnds : Source := ⟨"lines", "é\r\n\n\tb\rc".toList⟩

theorem position_mixedLineEnds :
    HoldsAt mixedLineEnds.content 8 'c' ∧ mixedLineEnds.position 8 = ⟨3, 4⟩ ∧
      ∃ text, mixedLineEnds.Locates 8 'c' text := by
  have h : HoldsAt mixedLineEnds.content 8 'c' :=
    ⟨"é\r\n\n\tb\r".toList, [], by decide, by decide, by decide, by decide⟩
  exact ⟨h, by decide, mixedLineEnds.position_locates.1 8 'c' h⟩

end Source

end Gsc
