import Gsc.Proofs.Image.Defects
import Gsc.Proofs.Inspection
import Gsc.Proofs.Lowering.Literals
import Gsc.Proofs.Script.Names

/-! # Lowered programs have images

Nothing that lowering emits is at fault if a program cannot be assembled. Of a source that compiles
only the string literals and the sizes are, since its names hold letters, digits and underscores.
-/

namespace Gsc

/-! ## Names without zero characters -/

/-- No literal, name or path but a literal can hold a zero character. -/
theorem Mention.hasNul_of_spelled {m : Mention} (h : m.Spelled)
    (hliteral : ∀ s, m = .literal s → StringPool.hasNul s = false) :
    StringPool.hasNul m.value = false := by
  cases m with
  | literal s => exact hliteral s rfl
  | name s =>
      have hnul := isNameChar_of_isName h (Char.ofNat 0)
      simpa [StringPool.hasNul, isNameChar] using hnul
  | path s =>
      have hnul := IsPath.char h (Char.ofNat 0)
      simpa [StringPool.hasNul, isNameChar] using hnul

/-- A program that was compiled can be encoded exactly if no literal ends early. -/
theorem encodable_iff_of_lower {name : String} {content : List Char} {script : Script}
    {program : Program} (hparse : Script.parseChars content = .ok script)
    (hlower : script.lower name = (program, [])) :
    program.Encodable ↔
      ∀ f ∈ script.functions, ∀ s, .literal s ∈ f.mentions → StringPool.hasNul s = false := by
  have hfindings : (script.lower name).2 = [] := by rw [hlower]
  obtain ⟨hroutines, hclean⟩ := Script.lower_of_no_findings hfindings
  rw [hlower] at hroutines
  constructor
  · intro h f hf s hs
    have hr : (f.lower script.scope).1 ∈ program.routines := by
      rw [hroutines]
      exact List.mem_map_of_mem hf
    obtain ⟨i, hi, ho⟩ := Function.names_of_lower (hclean f hf) hs
    exact ((h _ hr).2 i hi).within _ ho
  · intro h
    have hspelled := Script.spelled_of_parseChars hparse
    have hmentions : ∀ f ∈ script.functions, ∀ m ∈ f.mentions,
        StringPool.hasNul m.value = false := by
      intro f hf m hm
      refine Mention.hasNul_of_spelled (hspelled m ?_) fun s hs => h f hf s (hs ▸ hm)
      exact List.mem_append_right _ (List.mem_flatMap.2 ⟨f, hf, hm⟩)
    have hbuiltins : ∀ n ∈ ArraySlots.builtins, StringPool.hasNul n = false := by decide
    have hsound := script.sound_of_mem_routines name hbuiltins hmentions
    rw [hlower] at hsound
    intro r hr
    refine ⟨?_, (hsound r hr).bound⟩
    rw [hroutines] at hr
    obtain ⟨f, hf, rfl⟩ := List.mem_map.1 hr
    exact hmentions f hf (.name f.name) List.mem_cons_self

/-! ## Images of lowered and of compiled programs -/

/-- Whatever is wrong with a script, its routines have bound labels and fitting operands, so that
none of the two is ever what assembling reports. A source that compiles to a program of a fitting
size has an image exactly if none of its literals holds a zero character. -/
theorem assemble_lower_spec (name : String) (t : OpcodeTable) :
    (∀ (s : Script) (r : Routine), r ∈ (s.lower name).1.routines →
      (∀ l < r.labels.length, ∃ i < r.code.length, r.target? l = some i) ∧
        ∀ i ∈ r.code, i.opcode.operands = i.operands.map Operand.kind) ∧
    (∀ (s : Script) (e : AssembleError), (s.lower name).1.assemble t = .error (.error e) →
      (∀ function label, e ≠ .unboundLabel function label) ∧
        ∀ function opcode found, e ≠ .operandMismatch function opcode found) ∧
    ∀ (bytes : Bytes) (source : Source) (script : Script) (program : Program),
      parseSource name bytes = .ok (source, script) → compile name bytes = .ok program →
      program.bytecodeSize ≤ regionLimit → program.stackSize ≤ regionLimit →
      ((∃ image, program.assemble t = .ok image ∧ image.bytecode.length = program.bytecodeSize ∧
          image.stack.length = program.stackSize) ↔
        ∀ f ∈ script.functions, ∀ s, .literal s ∈ f.mentions → StringPool.hasNul s = false) := by
  have hsound : ∀ (s : Script), ∀ r ∈ (s.lower name).1.routines, r.Sound fun _ => True :=
    fun s => s.sound_of_mem_routines name (fun _ _ => trivial) fun _ _ _ _ => trivial
  refine ⟨fun s r hr => ?_, fun s e he => ?_, ?_⟩
  · exact ⟨(hsound s r hr).labels, fun i hi => ((hsound s r hr).code i hi).kinds⟩
  · have hspares := Program.failsWith_assemble (fun r hr => (hsound s r hr).bound) e he
    constructor
    · rintro function label rfl
      exact hspares
    · rintro function opcode found rfl
      exact hspares
  · intro bytes source script program hparse hcompile hbytecode hstack
    obtain ⟨content, script', hcontent, hscript, hlower⟩ := compile_eq_ok hcompile
    have hsame : script' = script := by
      simp only [parseSource, hcontent, hscript] at hparse
      cases hparse
      rfl
    subst hsame
    rw [← encodable_iff_of_lower hscript hlower]
    constructor
    · rintro ⟨image, himage, -⟩
      exact (Program.spec_of_assemble himage).1
    · intro h
      obtain ⟨image, himage⟩ := Program.exists_assemble (t := t) hbytecode hstack h
      exact ⟨image, himage, (Program.spec_of_assemble himage).2⟩

/-- A function with two literals and a label. -/
def literalSource : Bytes := Utf8.ofString "f()\x7bif(\"a\")return &\"b\";\x7d"

def literalRoutine : Routine where
  name := "f"
  params := 0
  locals := []
  code :=
    [⟨.createLocalVariables, [.byte 0, .byte 0]⟩, ⟨.getString, [.text "a"]⟩,
      ⟨.jumpOnFalse, [.label 0]⟩, ⟨.getIString, [.text "b"]⟩, ⟨.giveBack, []⟩, ⟨.finish, []⟩]
  labels := [some 5]

def literalProgram : Program := ⟨"literal", [], none, [literalRoutine]⟩

theorem assemble_literalProgram :
    compile "literal" literalSource = .ok literalProgram ∧
      literalProgram.bytecodeSize ≤ regionLimit ∧ literalProgram.stackSize ≤ regionLimit ∧
      ∃ source script, parseSource "literal" literalSource = .ok (source, script) ∧
        (∀ l < literalRoutine.labels.length,
          ∃ i < literalRoutine.code.length, literalRoutine.target? l = some i) ∧
        ((∃ image, literalProgram.assemble .v1 = .ok image ∧
            image.bytecode.length = literalProgram.bytecodeSize ∧
            image.stack.length = literalProgram.stackSize) ↔
          ∀ f ∈ script.functions, ∀ s, .literal s ∈ f.mentions → StringPool.hasNul s = false) := by
  have hcompile : compile "literal" literalSource = .ok literalProgram :=
    eq_ok_of_toOption (by decide +kernel)
  have hbytecode : literalProgram.bytecodeSize ≤ regionLimit := by decide +kernel
  have hstack : literalProgram.stackSize ≤ regionLimit := by decide +kernel
  obtain ⟨content, script, hcontent, hscript, hlower⟩ := compile_eq_ok hcompile
  have hparse : parseSource "literal" literalSource = .ok (⟨"literal", content⟩, script) := by
    simp only [parseSource, hcontent, hscript]
  obtain ⟨hlabels, -, himage⟩ := assemble_lower_spec "literal" .v1
  have hmem : literalRoutine ∈ (script.lower "literal").1.routines := by
    rw [hlower]
    exact List.mem_cons_self
  exact ⟨hcompile, hbytecode, hstack, _, script, hparse, (hlabels script _ hmem).1,
    himage _ _ script _ hparse hcompile hbytecode hstack⟩

end Gsc
