import Gsc.Proofs.Inspection
import Gsc.Proofs.Script.Names
import Gsc.Proofs.Script.Tokens

/-! # Names in normal form

The names and paths of a parsed script are in lowercase, whatever the case of its text. What is
built from it lists its functions under these names, so that asking for a function in any case
finds it.
-/

namespace Gsc

/-! ## Characters of names -/

/-- Neither zero, nor a dollar sign, nor a backslash, nor a capital letter. -/
def isPlain (c : Char) : Bool := c != Char.ofNat 0 && c != '$' && c != '\\' && !c.isUpper

theorem isPlain_of_isNameChar {c : Char} (h : isNameChar c = true) : isPlain c = true :=
  forall_nameChar isPlain (by decide) h

/-- Only the literals of a script can hold other characters. -/
theorem Mention.Spelled.isPlain {m : Mention} (h : m.Spelled) (hm : ∀ s, m ≠ .literal s) :
    ∀ c ∈ m.value.toList, isPlain c = true := by
  intro c hc
  cases m with
  | literal s => exact (hm s rfl).elim
  | name s => exact isPlain_of_isNameChar (isNameChar_of_isName h c hc)
  | path s =>
      rcases IsPath.char h c hc with hchar | rfl
      · exact isPlain_of_isNameChar hchar
      · decide

theorem Mention.Spelled.lower_eq {s : String} (h : (Mention.name s).Spelled) :
    Text.lower s = s := by
  rw [Text.lower, lowercase_of_nameChars (isNameChar_of_isName h), String.ofList_toList]

/-! ## Functions of an artifact -/

theorem Program.names_of_assemble {p : Program} {t : OpcodeTable} {image : Image}
    (h : p.assemble t = .ok image) :
    image.functions.map (·.name) = p.routines.map (·.name) := by
  obtain ⟨names, first, final, hassembled⟩ := p.assembled_of_assemble h
  obtain ⟨fs, -, hreads, hentries⟩ := hassembled.readsBack
  rw [← names_of_readsAs hreads, ← hentries, List.map_map]
  rfl

/-- What is built lists the functions of the script, in their order. -/
theorem names_of_buildWith {encode : Bytes → Bytes} {t : OpcodeTable} {name : String}
    {source : Bytes} {a : Artifact} (h : buildWith encode t name source = .ok a) :
    ∃ content script, Utf8.decode? source = some content ∧
      Script.parseChars content = .ok script ∧
      a.functions.map (·.name) = script.functions.map (·.name) := by
  obtain ⟨program, image, hcompile, hassemble, hpack⟩ := buildWith_eq_ok h
  obtain ⟨content, script, hcontent, hscript, hlower⟩ := compile_eq_ok hcompile
  obtain ⟨rfl, -, -⟩ := Artifact.pack_eq_ok hpack
  have hfindings : (script.lower name).2 = [] := by rw [hlower]
  have hroutines := (Script.lower_of_no_findings hfindings).1
  rw [hlower] at hroutines
  refine ⟨content, script, hcontent, hscript, ?_⟩
  calc image.functions.map (·.name)
      = program.routines.map (·.name) := Program.names_of_assemble hassemble
    _ = script.functions.map (·.name) := by
        rw [hroutines, List.map_map]
        rfl

theorem Artifact.name_of_function? {a : Artifact} {q : String} {entry : FunctionEntry}
    (h : a.function? q = some entry) : entry.name = Text.lower q := by
  have hfound := List.find?_some h
  exact of_decide_eq_true hfound

theorem Artifact.exists_function?_iff {a : Artifact} {q : String} :
    (∃ entry, a.function? q = some entry) ↔ Text.lower q ∈ a.functions.map (·.name) := by
  rw [← Option.isSome_iff_exists, function?, List.find?_isSome, List.mem_map]
  simp only [decide_eq_true_eq]

namespace Script

variable {content : List Char} {script : Script}

theorem lower_name_of_parseChars (h : parseChars content = .ok script) {f : Function}
    (hf : f ∈ script.functions) : Text.lower f.name = f.name := by
  have hmention : Mention.name f.name ∈ script.mentions :=
    List.mem_append_right _ (List.mem_flatMap.2 ⟨f, hf, List.mem_cons_self⟩)
  exact (spelled_of_parseChars h _ hmention).lower_eq

theorem lower_mem_names_iff (h : parseChars content = .ok script) {q : String} :
    Text.lower q ∈ script.functions.map (·.name) ↔
      ∃ f ∈ script.functions, Text.lower f.name = Text.lower q := by
  rw [List.mem_map]
  refine exists_congr fun f => and_congr_right fun hf => ?_
  rw [lower_name_of_parseChars h hf]

/-- The names are asked for as they are written, up to case. -/
theorem lower_mem_names_iff_written (h : parseChars content = .ok script) {q : String} :
    Text.lower q ∈ script.functions.map (·.name) ↔
      ∃ n ∈ definedNames content, Text.lowercase n.value = Text.lowercase q.toList := by
  rw [names_of_parseChars h, List.mem_map]
  refine exists_congr fun n => and_congr_right fun _ => ?_
  rw [Text.lower, String.ofList_inj]

end Script

/-- The names of a parsed script are words of small letters, digits and underscores, and its paths
are such segments with single slashes between them, so that neither holds a zero character, a
dollar sign, a backslash or a capital letter. A function of what is built is found exactly if the
script defines one by the name that is asked for, up to the case of letters. -/
theorem names_normalised :
    (∀ source script, Script.parse source = .ok script → ∀ m ∈ script.mentions,
      m.Spelled ∧ ((∀ s, m ≠ .literal s) → ∀ c ∈ m.value.toList, isPlain c = true)) ∧
    ∀ encode t name source a, buildWith encode t name source = .ok a →
      ∃ content script, Utf8.decode? source = some content ∧
        Script.parseChars content = .ok script ∧
        ∀ q, ((∃ entry, a.function? q = some entry) ↔
            ∃ f ∈ script.functions, Text.lower f.name = Text.lower q) ∧
          ((∃ entry, a.function? q = some entry) ↔
            ∃ n ∈ Script.definedNames content, Text.lowercase n.value = Text.lowercase q.toList) ∧
          ∀ entry, a.function? q = some entry → entry.name = Text.lower q := by
  constructor
  · intro source script hparse m hm
    have hspelled := Script.spelled_of_parseChars hparse m hm
    exact ⟨hspelled, hspelled.isPlain⟩
  · intro encode t name source a hbuild
    obtain ⟨content, script, hcontent, hscript, hnames⟩ := names_of_buildWith hbuild
    refine ⟨content, script, hcontent, hscript, fun q => ⟨?_, ?_, ?_⟩⟩
    · rw [Artifact.exists_function?_iff, hnames, Script.lower_mem_names_iff hscript]
    · rw [Artifact.exists_function?_iff, hnames, Script.lower_mem_names_iff_written hscript]
    · exact fun entry => Artifact.name_of_function?

/-- Capital letters and separators of both kinds, with a comment inside a call. -/
def mixedCase : String :=
  "#include Maps\\MP/_Util;Main(Who)\x7bforeach(V in Who)V Maps\\MP::Go(/**/Who.Size);\x7d"

theorem names_normalised_mixedCase :
    (∃ script, Script.parse mixedCase = .ok script ∧
      Mention.path "maps/mp/_util" ∈ script.mentions ∧ Mention.name "size" ∈ script.mentions ∧
      ∀ m ∈ script.mentions, m.Spelled) ∧
    ∃ a content,
      buildWith Deflate.storedStream .v1 "mixed" (Utf8.ofString mixedCase) = .ok a ∧
      Utf8.decode? (Utf8.ofString mixedCase) = some content ∧
      (∃ n ∈ Script.definedNames content,
        Text.lowercase n.value = Text.lowercase "mAIN".toList) ∧
      (¬ ∃ n ∈ Script.definedNames content,
        Text.lowercase n.value = Text.lowercase "go".toList) ∧
      ∃ entry, a.function? "mAIN" = some entry ∧ entry.name = Text.lower "mAIN" := by
  obtain ⟨hparsed, hbuilt⟩ := names_normalised
  constructor
  · have hany : (Script.parse mixedCase).toOption.any (fun script =>
        decide (Mention.path "maps/mp/_util" ∈ script.mentions) &&
          decide (Mention.name "size" ∈ script.mentions)) = true := by decide +kernel
    obtain ⟨script, hscript, hmentions⟩ := exists_ok_of_any hany
    obtain ⟨hpath, hname⟩ := Bool.and_eq_true_iff.1 hmentions
    exact ⟨script, hscript, of_decide_eq_true hpath, of_decide_eq_true hname,
      fun m hm => (hparsed _ _ hscript m hm).1⟩
  · have hany : (buildWith Deflate.storedStream .v1 "mixed" (Utf8.ofString mixedCase)).toOption.any
        (fun a => (a.function? "mAIN").isSome && (a.function? "go").isNone) = true := by
      decide +kernel
    obtain ⟨a, ha, hfound⟩ := exists_ok_of_any hany
    obtain ⟨hmain, hgo⟩ := Bool.and_eq_true_iff.1 hfound
    obtain ⟨entry, hentry⟩ := Option.isSome_iff_exists.1 hmain
    obtain ⟨content, script, hcontent, -, hq⟩ := hbuilt _ _ _ _ _ ha
    refine ⟨a, content, ha, hcontent, (hq "mAIN").2.1.1 ⟨entry, hentry⟩, ?_,
      entry, hentry, (hq "mAIN").2.2 entry hentry⟩
    rw [← (hq "go").2.1]
    simp [Option.isNone_iff_eq_none.1 hgo]

end Gsc
