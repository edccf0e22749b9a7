import Gsc.Proofs.Script.Statements

/-! # The functions a text defines

A script has a function for each definition in its text, in the order of the text and under the
name that stands there, in lowercase.
-/

namespace Gsc

open Gsc.Peg

/-- The characters at a range of byte offsets of a text. -/
def Span.Covers (span : Span) (content chars : List Char) : Prop :=
  ∃ before after, content = before ++ chars ++ after ∧
    span = ⟨utf8Length before, utf8Length (before ++ chars)⟩

namespace Script

def definitions (content : List Char) : List (ParseTree Rule) :=
  match (grammar.run .file content).1 with
  | .matched trees _ => (trees.flatMap ParseTree.children).filter (·.rule = .functionDef)
  | _ => []

def writtenName (definition : ParseTree Rule) : Located (List Char) :=
  match definition.children with
  | [] => ⟨[], .point definition.span.start⟩
  | name :: _ => ⟨name.text, name.span⟩

def definedNames (content : List Char) : List (Located (List Char)) :=
  (definitions content).map writtenName

end Script

/-! ## Reading a definition -/

/-- Only names mean a name, which is their text in lowercase. -/
theorem eq_name_of_means {t : ParseTree Rule} {n : Located String} (h : Means t (.name n)) :
    n = Script.name t := by
  obtain ⟨-, h⟩ := h
  generalize t.rule = r at h
  cases h with
  | ident | fieldName => rfl

/-- Only a definition means a function, and this has the name with which the definition begins. -/
theorem function_of_means {t : ParseTree Rule} {f : Function} (h : Means t (.function f)) :
    t.rule = .functionDef ∧ ∃ first rest, t.children = first :: rest ∧
      f.name = (Script.name first).value := by
  obtain ⟨hparts, h⟩ := h
  generalize t.rule = r at h
  generalize t.children = children at hparts
  cases h with
  | function n ps place body =>
      obtain ⟨first, rest, hfirst, -, rfl⟩ := List.forall₂_cons_right_iff.1 hparts
      exact ⟨rfl, first, rest, rfl, by rw [eq_name_of_means hfirst]⟩

theorem exists_function_of_means {t : ParseTree Rule} {part : Part} (hr : t.rule = .functionDef)
    (h : Means t part) : ∃ f, part = .function f := by
  obtain ⟨-, h⟩ := h
  rw [hr] at h
  cases h with
  | function => exact ⟨_, rfl⟩

namespace Part

def function? : Part → Option Function
  | .function f => some f
  | _ => none

theorem functions_addTo (script : Script) (part : Part) :
    (part.addTo script).functions = script.functions ++ part.function?.toList := by
  cases part with
  | function f => rfl
  | _ => exact (List.append_nil _).symm

theorem functions_foldl (parts : List Part) (script : Script) :
    (parts.foldl addTo script).functions = script.functions ++ parts.filterMap function? := by
  induction parts generalizing script with
  | nil => exact (List.append_nil _).symm
  | cons part parts ih =>
      rw [List.foldl_cons, ih, functions_addTo, List.append_assoc, List.filterMap_cons]
      cases function? part with
      | none => rfl
      | some f => rfl

/-- Items mean the functions of the definitions among them. -/
theorem names_of_items {trees : List (ParseTree Rule)} {parts : List Part}
    (h : List.Forall₂ Means trees parts) :
    (parts.filterMap function?).map (·.name)
      = ((trees.filter (·.rule = .functionDef)).map Script.writtenName).map
          fun n => String.ofList (Text.lowercase n.value) := by
  induction h with
  | nil => rfl
  | @cons tree part trees parts hmeans hrest ih =>
      by_cases hrule : tree.rule = .functionDef
      · obtain ⟨f, rfl⟩ := exists_function_of_means hrule hmeans
        obtain ⟨-, first, rest, hchildren, hname⟩ := function_of_means hmeans
        simp [hrule, function?, ih, hname, Script.writtenName, hchildren, Script.name,
          Lexeme.lowercase]
      · have hnone : function? part = none := by
          cases part with
          | function f => exact (hrule (function_of_means hmeans).1).elim
          | _ => rfl
        simp [hrule, hnone, ih]

end Part

/-! ## Where the names stand -/

namespace Script

/-- The definitions are among items that lie in the text one behind the other. -/
theorem definitions_sublist (content : List Char) :
    ∃ items stop, (definitions content).Sublist items ∧ Laid (.atStart content) items stop := by
  unfold definitions
  split
  · rename_i trees after h
    obtain ⟨children, rfl, hlaid⟩ := run_file h
    refine ⟨children, after, ?_, hlaid⟩
    simp only [List.flatMap_singleton, ParseTree.children]
    exact List.filter_sublist
  · exact ⟨[], .atStart content, .refl _, .nil (.refl _)⟩

theorem writtenName_node {r : Rule} {start stop : Cursor} {children : List (ParseTree Rule)}
    (h : Laid start children stop) :
    ∃ first last front chars back, writtenName (.node r start stop.pos children)
        = ⟨chars, ⟨first.pos, last.pos⟩⟩ ∧
      start.Passes front first ∧ first.Passes chars last ∧ last.Passes back stop := by
  cases h with
  | nil h => exact ⟨start, start, [], [], _, rfl, .refl _, .refl _, h⟩
  | @node _ first last _ front _ _ _ hfront hinner hrest =>
      obtain ⟨chars, hchars⟩ := hinner.passes
      obtain ⟨back, hback⟩ := hrest.passes
      refine ⟨first, last, front, chars, back, ?_, hfront, hchars, hback⟩
      simp only [writtenName, ParseTree.children, ParseTree.text, ParseTree.span,
        hchars.textUntil_eq]

theorem covers_of_mem_definedNames {content : List Char} {n : Located (List Char)}
    (h : n ∈ definedNames content) : n.span.Covers content n.value := by
  obtain ⟨d, hd, rfl⟩ := List.mem_map.1 h
  obtain ⟨items, stop, hsub, hlaid⟩ := definitions_sublist content
  obtain ⟨r, start, last, children, front, back, rfl, hfront, hinner, -⟩ :=
    hlaid.of_mem (hsub.subset hd)
  obtain ⟨first, second, before, chars, after, hname, hbefore, hchars, -⟩ := writtenName_node hinner
  have hstart := hfront.trans hbefore
  rw [hname]
  refine ⟨front ++ before, second.rest, ?_, ?_⟩
  · exact (hstart.trans hchars).rest
  · simp only [hchars.pos, hstart.pos, Cursor.atStart, utf8Length_append, Nat.zero_add]

theorem pairwise_definedNames (content : List Char) :
    (definedNames content).Pairwise fun n m => n.span.stop ≤ m.span.start := by
  obtain ⟨items, stop, hsub, hlaid⟩ := definitions_sublist content
  refine List.pairwise_map.2 ((hlaid.pairwise_span.sublist hsub).imp_of_mem ?_)
  intro d e hd he hle
  obtain ⟨r, start, last, children, -, -, rfl, -, hinner, -⟩ := hlaid.of_mem (hsub.subset hd)
  obtain ⟨r', start', last', children', -, -, rfl, -, hinner', -⟩ := hlaid.of_mem (hsub.subset he)
  obtain ⟨first, second, before, chars, after, hname, -, -, hafter⟩ := writtenName_node hinner
  obtain ⟨first', second', before', chars', after', hname', hbefore', -, -⟩ :=
    writtenName_node hinner'
  rw [hname, hname']
  have hend := hafter.pos
  have hbegin := hbefore'.pos
  simp only [ParseTree.span] at hle ⊢
  omega

/-! ## Parsing -/

/-- A parsed text is matched as a file, and the script is what the file means. -/
theorem parseChars_eq_ok {content : List Char} {script : Script}
    (h : parseChars content = .ok script) :
    ∃ items parts after, (grammar.run .file content).1
        = .matched [.node .file (.atStart content) after.pos items] after ∧
      Laid (.atStart content) items after ∧ List.Forall₂ Means items parts ∧
      script = parts.foldl Part.addTo .empty := by
  obtain ⟨trees, after, hmatch⟩ := matched_of_parseChars h
  obtain ⟨items, rfl, hlaid⟩ := run_file hmatch
  obtain ⟨_, _, hsame, hmeans, -, hread⟩ | ⟨t, -, herror⟩ := parseChars_of_run hmatch
  · cases hread.symm.trans h
    cases hsame
    obtain ⟨hparts, hfile⟩ := hmeans
    cases hfile with
    | file => exact ⟨items, _, after, hmatch, hlaid, hparts, rfl⟩
  · cases herror.symm.trans h

/-- The functions of a script have the defined names of its text, in order and in lowercase. -/
theorem names_of_parseChars {content : List Char} {script : Script}
    (h : parseChars content = .ok script) :
    script.functions.map (·.name)
      = (definedNames content).map fun n => String.ofList (Text.lowercase n.value) := by
  obtain ⟨items, parts, after, hmatch, -, hparts, rfl⟩ := parseChars_eq_ok h
  have hdefinitions : definitions content = items.filter (·.rule = .functionDef) := by
    simp [definitions, hmatch, ParseTree.children]
  rw [Part.functions_foldl, definedNames, hdefinitions]
  exact Part.names_of_items hparts

end Script

end Gsc
