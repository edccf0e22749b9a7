import Gsc.Build
import Gsc.Proofs.Artifact.Parts
import Gsc.Proofs.Deflate.Stored
import Gsc.Proofs.Image.RoundTrip
import Gsc.Proofs.Lowering.Discipline
import Gsc.Proofs.Script.Definitions

/-! # What is built can be inspected

The parts of a built artifact make the artifact again, its stack region inflates, and its code is
read back as the functions of the script, with every jump at an instruction of its own function.
-/

namespace Gsc

/-! ## Jumps -/

def DecodedFunction.JumpsInside (f : DecodedFunction) : Prop :=
  ∀ i ∈ f.code, ∀ distance target, DecodedOperand.jump distance target ∈ i.operands →
    f.offset.toNat ≤ target ∧ target < f.offset.toNat + f.size.toNat ∧
      ∃ j ∈ f.code, j.offset = target

theorem Opcode.eq_jump_of_mem {op : Opcode} (h : OperandKind.jump ∈ op.operands) :
    op.operands = [.jump] ∧
      (op = .jump ∨ op = .jumpOnFalse ∨ op = .jumpOnTrueExpr ∨ op = .jumpOnFalseExpr) := by
  cases op <;> simp [Opcode.operands] at h ⊢

/-- An instruction with a label whose edges are all there has an edge to the label. -/
theorem Instruction.edge_of_label {ins : Instruction} {r : Routine} {i l : Nat} {s : Shape}
    {edges : List (Nat × Shape)} (hk : ins.opcode.operands = ins.operands.map Operand.kind)
    (hl : Operand.label l ∈ ins.operands) (he : ins.edges r i s = some edges) :
    ∃ t s', r.target? l = some t ∧ (t, s') ∈ edges := by
  have hjump : OperandKind.jump ∈ ins.opcode.operands := by
    rw [hk]
    exact List.mem_map.2 ⟨.label l, hl, rfl⟩
  obtain ⟨hone, hop⟩ := Opcode.eq_jump_of_mem hjump
  have hoperands : ins.operands = [.label l] := by
    rw [hone] at hk
    obtain ⟨operand, ho, -⟩ := List.map_eq_singleton_iff.1 hk.symm
    rw [ho, List.mem_singleton] at hl
    rw [ho, hl]
  have htarget : ins.target? r = r.target? l := by
    rw [Instruction.target?, hoperands]
  have hplain : ins.opcode.effect? = none ∧ ins.opcode.callForm? = none := by
    rcases hop with hop | hop | hop | hop <;> rw [hop] <;> exact ⟨rfl, rfl⟩
  rw [Instruction.edges, hplain.1, hplain.2, htarget] at he
  rcases hop with hop | hop | hop | hop
  all_goals
    rw [hop] at he
    dsimp only at he
  · obtain ⟨t, ht, rfl⟩ := Option.map_eq_some_iff.1 he
    exact ⟨t, s, ht, List.mem_cons_self⟩
  all_goals
    obtain ⟨t, ht, hrest⟩ := Option.bind_eq_some_iff.1 he
    obtain ⟨rest, -, rfl⟩ := Option.map_eq_some_iff.1 hrest
    exact ⟨t, _, ht, List.mem_cons_self⟩

/-- The function that a disciplined routine reads as has no jump that leads out of it. -/
theorem Routine.ReadsAs.jumpsInside {image : Image} {r : Routine} {f : DecodedFunction}
    (h : r.ReadsAs image f) (hd : r.Disciplined)
    (hk : ∀ i ∈ r.code, i.opcode.operands = i.operands.map Operand.kind) : f.JumpsInside := by
  intro d hmem distance target hjump
  obtain ⟨index, hindex⟩ := List.mem_iff_getElem?.1 hmem
  obtain ⟨ins, hins⟩ : ∃ ins, r.code[index]? = some ins := by
    have hlt := (List.getElem?_eq_some_iff.1 hindex).1
    rw [h.length] at hlt
    exact ⟨_, List.getElem?_eq_getElem hlt⟩
  obtain ⟨d', hd', hreads⟩ := h.instruction index ins hins
  cases hindex.symm.trans hd'
  obtain ⟨operand, hoperand, hlabel⟩ := exists_of_forall₂_right hreads.operands hjump
  cases operand with
  | label l =>
      obtain ⟨place, hplace, -, rfl⟩ := hlabel
      -- The label of a jump is where one of its edges leads, and edges lead to instructions.
      obtain ⟨shape, -, hall⟩ := hd
      obtain ⟨edges, he, hinside⟩ := hall index ins hins
      obtain ⟨t, s, ht, hedge⟩ :=
        Instruction.edge_of_label (hk ins (List.mem_of_getElem? hins)) hoperand he
      cases hplace.symm.trans ht
      have hlt := (hinside place s hedge).1
      obtain ⟨next, hnext⟩ : ∃ next, r.code[place]? = some next :=
        ⟨_, List.getElem?_eq_getElem hlt⟩
      obtain ⟨j, hj, hjreads⟩ := h.instruction place next hnext
      have hsize := Assembly.sizeOf_take_succ hnext
      have hle := Assembly.sizeOf_take_le r.code (place + 1)
      have hpos : 0 < next.opcode.encodedSize := by
        unfold Opcode.encodedSize
        omega
      refine ⟨Nat.le_add_right _ _, ?_, j, List.mem_of_getElem? hj, hjreads.offset⟩
      rw [h.size]
      omega
  | _ => exact hlabel.elim

theorem Assembly.kinds_of_encodeRoutines {t : OpcodeTable} {routines : List Routine} {offset : Nat}
    {pool pool' : StringPool} {bytes : Bytes} {entries : List FunctionEntry}
    (h : encodeRoutines t offset pool routines = .ok (bytes, entries, pool')) :
    ∀ r ∈ routines, ∀ i ∈ r.code, i.opcode.operands = i.operands.map Operand.kind := by
  induction routines generalizing offset pool bytes entries with
  | nil =>
      intro r hr
      cases hr
  | cons first routines ih =>
      obtain ⟨front, pool₁, start, size, back, rest, h₁, -, -, h₂, rfl, rfl⟩ :=
        encodeRoutines_cons_eq_ok h
      intro r hr
      rcases List.mem_cons.1 hr with rfl | hr
      · exact (encodeRoutine_spec h₁).1
      · exact ih h₂ r hr

theorem names_of_readsAs {image : Image} {routines : List Routine} {fs : List DecodedFunction}
    (h : List.Forall₂ (Routine.ReadsAs image) routines fs) :
    fs.map (·.name) = routines.map (·.name) := by
  induction h with
  | nil => rfl
  | cons hr hrest ih => rw [List.map_cons, List.map_cons, hr.name, ih]

/-! ## Building -/

theorem compile_eq_ok {name : String} {source : Bytes} {program : Program}
    (h : compile name source = .ok program) :
    ∃ content script, Utf8.decode? source = some content ∧
      Script.parseChars content = .ok script ∧ script.lower name = (program, []) := by
  unfold compile parseSource at h
  cases hcontent : Utf8.decode? source with
  | none =>
      rw [hcontent] at h
      cases h
  | some content =>
      cases hscript : Script.parseChars content with
      | error e =>
          simp only [hcontent, hscript] at h
          cases h
      | ok script =>
          simp only [hcontent, hscript] at h
          split at h
          · rename_i found hlower
            cases h
            exact ⟨content, script, rfl, hscript, hlower⟩
          · cases h

theorem buildWith_eq_ok {encode : Bytes → Bytes} {t : OpcodeTable} {name : String} {source : Bytes}
    {a : Artifact} (h : buildWith encode t name source = .ok a) :
    ∃ program image, compile name source = .ok program ∧ program.assemble t = .ok image ∧
      Artifact.pack name image.bytecode (compressWith encode image.stack) image.stack.length
        image.functions = .ok a := by
  unfold buildWith at h
  cases hcompile : compile name source with
  | error e =>
      rw [hcompile] at h
      cases h
  | ok program =>
      cases hassemble : program.assemble t with
      | error e =>
          simp only [hcompile, hassemble] at h
          cases h
      | ok image =>
          simp only [hcompile, hassemble] at h
          split at h
          · cases h
          · rename_i packed hpack
            cases h
            exact ⟨program, image, rfl, hassemble, hpack⟩

/-- The routines of a program that was compiled without findings keep the stack discipline and have
the names that the text defines. -/
theorem routines_of_compile {name : String} {source : Bytes} {program : Program}
    (h : compile name source = .ok program) :
    (∀ r ∈ program.routines, r.Disciplined) ∧
      ∃ content, Utf8.decode? source = some content ∧
        program.routines.map (·.name) = (Script.definedNames content).map
          fun n => String.ofList (Text.lowercase n.value) := by
  obtain ⟨content, script, hcontent, hscript, hlower⟩ := compile_eq_ok h
  have hfindings : (script.lower name).2 = [] := by rw [hlower]
  have hroutines := (Script.lower_of_no_findings hfindings).1
  rw [hlower] at hroutines
  refine ⟨Program.disciplined_of_lower hlower, content, hcontent, ?_⟩
  rw [hroutines, List.map_map, ← Script.names_of_parseChars hscript]
  rfl

structure Artifact.Inspection (a : Artifact) (t : OpcodeTable) (source stack : Bytes)
    (fs : List DecodedFunction) (content : List Char) : Prop where
  parts : ofParts a.metadata a.buffer = .ok a
  inflates : a.stack = .ok stack
  length : stack.length = a.length
  disassembles : disassembleFunctions t a.bytecode stack = .ok fs
  rows : fs.map DecodedFunction.entry = a.functions
  text : Utf8.decode? source = some content
  names : a.functions.map (·.name)
    = (Script.definedNames content).map fun n => String.ofList (Text.lowercase n.value)
  placed : ∀ n ∈ Script.definedNames content, n.span.Covers content n.value
  ordered : (Script.definedNames content).Pairwise fun n m => n.span.stop ≤ m.span.start
  jumps : ∀ f ∈ fs, f.JumpsInside

/-- What is built with any encoder can be inspected: its parts make it again, its stack region
inflates to its length, its code reads back as the listed functions, which are those that the text
of the source defines, and their jumps lead to instructions of the same function. -/
theorem exists_inspection_of_buildWith (e : Deflate.Encoder) (t : OpcodeTable) (name : String)
    (source : Bytes) (a : Artifact) (h : buildWith e.encode t name source = .ok a) :
    ∃ stack fs content, a.Inspection t source stack fs content := by
  obtain ⟨program, image, hcompile, hassemble, hpack⟩ := buildWith_eq_ok h
  obtain ⟨rfl, hlength, hbuffer⟩ := Artifact.pack_eq_ok hpack
  obtain ⟨names, first, final, hassembled⟩ := program.assembled_of_assemble hassemble
  obtain ⟨fs, hfs, hreads, hentries⟩ := hassembled.readsBack
  obtain ⟨hdisciplined, content, hcontent, hnames⟩ := routines_of_compile hcompile
  have hstack := decompress_compressWith e (Nat.le_trans hlength (by decide))
  refine ⟨image.stack, fs, content, ?_⟩
  constructor
  case parts => exact Artifact.ofParts_metadata hlength hbuffer hstack
  case inflates => exact hstack
  case length => rfl
  case disassembles => exact hfs
  case rows => exact hentries
  case text => exact hcontent
  case names =>
    rw [← hnames, ← names_of_readsAs hreads, ← hentries, List.map_map]
    rfl
  case placed => exact fun n => Script.covers_of_mem_definedNames
  case ordered => exact Script.pairwise_definedNames content
  case jumps =>
    intro f hf
    obtain ⟨r, hr, hread⟩ := exists_of_forall₂_right hreads hf
    exact hread.jumpsInside (hdisciplined r hr)
      (Assembly.kinds_of_encodeRoutines hassembled.code r hr)

def loopSource : Bytes := Utf8.ofString "Main()\x7bx=1;while(x)wait x;\x7db()\x7b\x7d"

def loopArtifact : Artifact where
  name := "loop"
  length := 35
  bytecode :=
    [0, 0, 1, 5, 1, 22, 0, 28, 21, 0, 50, 8, 0, 0, 0, 21, 0, 69, 49, 241, 255, 255, 255, 1, 0, 0,
      0, 1]
  compressed :=
    [120, 218, 1, 35, 0, 220, 255, 2, 0, 0, 0, 0, 0, 0, 0, 24, 0, 0, 0, 28, 0, 0, 0, 24, 0, 0, 0,
      4, 0, 0, 0, 33, 0, 0, 0, 109, 97, 105, 110, 0, 98, 0, 18, 174, 2, 123]
  functions := [⟨"main", 0, 24⟩, ⟨"b", 24, 4⟩]

theorem exists_inspection_loopArtifact :
    buildWith Deflate.storedStream .v1 "loop" loopSource = .ok loopArtifact ∧
      ∃ stack fs content, loopArtifact.Inspection .v1 loopSource stack fs content := by
  have h : buildWith Deflate.storedStream .v1 "loop" loopSource = .ok loopArtifact :=
    eq_ok_of_toOption (by decide +kernel)
  exact ⟨h, exists_inspection_of_buildWith .stored .v1 "loop" loopSource loopArtifact h⟩

end Gsc
