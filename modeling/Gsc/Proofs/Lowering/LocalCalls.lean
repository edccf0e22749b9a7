import Gsc.Proofs.Except
import Gsc.Proofs.Image.RoundTrip
import Gsc.Proofs.Lowering.Invariants

/-! # Calls within a script

Of several functions with one name the first counts, so that routines have distinct names; and
whatever is wrong with a script, its code calls no function of the script or of the engine that is
not there. In the image of a program such a name leads to one row of the function table.
-/

namespace Gsc

/-! ## Distinct names -/

theorem mem_unseen {seen names : List String} {x : String} :
    x ∈ unseen seen names ↔ x ∈ names ∧ x ∉ seen := by
  rw [unseen, List.mem_eraseDups, List.mem_filter]
  simp

theorem nodup_unseen (seen names : List String) : (unseen seen names).Nodup := by
  induction names generalizing seen with
  | nil => exact List.nodup_nil
  | cons x rest ih =>
      by_cases hx : x ∈ seen
      · rw [unseen_cons_of_mem hx]
        exact ih seen
      · rw [unseen_cons_of_not_mem hx, List.nodup_cons]
        exact ⟨fun hmem => (mem_unseen.1 hmem).2 List.mem_cons_self, ih _⟩

namespace Script

theorem names_firsts (seen : List String) (functions : List Function) :
    (firsts seen functions).map Function.name = unseen seen (functions.map Function.name) := by
  induction functions generalizing seen with
  | nil => rfl
  | cons f rest ih =>
      unfold firsts
      by_cases hf : f.name ∈ seen
      · rw [if_pos (List.contains_iff_mem.2 hf), ih, List.map_cons, unseen_cons_of_mem hf]
      · rw [if_neg (mt List.contains_iff_mem.1 hf), List.map_cons, ih, List.map_cons,
          unseen_cons_of_not_mem hf]

/-- The first function of a name is the one that is found. -/
theorem find?_of_mem_firsts {seen : List String} {functions : List Function} {f : Function}
    (h : f ∈ firsts seen functions) :
    functions.find? (·.name == f.name) = some f ∧ f.name ∉ seen := by
  induction functions generalizing seen with
  | nil => cases h
  | cons g rest ih =>
      unfold firsts at h
      by_cases hg : g.name ∈ seen
      · rw [if_pos (List.contains_iff_mem.2 hg)] at h
        obtain ⟨hfind, hf⟩ := ih h
        rw [List.find?_cons_of_neg (by simpa using fun he : g.name = f.name => hf (he ▸ hg))]
        exact ⟨hfind, hf⟩
      · rw [if_neg (mt List.contains_iff_mem.1 hg), List.mem_cons] at h
        rcases h with rfl | h
        · exact ⟨List.find?_cons_of_pos (by simp), hg⟩
        · obtain ⟨hfind, hf⟩ := ih h
          rw [List.mem_cons, not_or] at hf
          rw [List.find?_cons_of_neg (by simpa using Ne.symm hf.1)]
          exact ⟨hfind, hf.2⟩

end Script

/-! ## Calls -/

theorem Scope.declares_iff {scope : Scope} {name : String} :
    scope.declares name = true ↔ name ∈ scope.functions :=
  List.contains_iff_mem

theorem Instruction.Names.imp {i : Instruction} {known known' : String → Prop}
    (h : i.Names known) (hk : ∀ name, known name → known' name) : i.Names known' := by
  obtain ⟨name, rest, hi, hname⟩ := h
  exact ⟨name, rest, hi, hk name hname⟩

theorem Function.closed_lower (scope : Scope) (f : Function) :
    ∀ i ∈ (f.lower scope).1.code, i.Closed scope := by
  intro i hi
  rw [lower_eq, Draft.toRoutine, List.mem_cons] at hi
  rcases hi with rfl | hi
  · exact (Instruction.inert_of_plain rfl).closed
  · exact (f.fits_draft scope i (List.mem_of_mem_drop hi)).closed

/-! ## Function tables -/

/-- The name of a row can be read from its stack region. -/
def StackRow.Named (stack : Bytes) (name : String) (row : StackRow) : Prop :=
  Stack.readString stack row.nameOffset = .ok name

theorem Stack.Written.named_rows {stack : Bytes} {functions : List FunctionEntry}
    {offsets : List UInt32} {pool : StringPool} (hw : Written stack functions offsets pool)
    {names : List String} (h : List.Forall₂ pool.Holds names offsets) :
    List.Forall₂ (StackRow.Named stack) names (List.zipWith toRow functions offsets) := by
  have hread : ∀ {name offset}, pool.Holds name offset → readString stack offset = .ok name :=
    hw.readString_eq
  have hpaired := hw.paired
  clear hw
  induction h generalizing functions with
  | nil => simp
  | cons hs _ ih =>
      cases functions with
      | nil => cases hpaired
      | cons f rest => exact .cons (hread hs) (ih (Nat.succ.inj hpaired))

/-- The rows of an image are named as the routines, in order. -/
theorem Program.rows_of_assemble {p : Program} {t : OpcodeTable} {image : Image}
    (h : p.assemble t = .ok image) :
    ∃ rows, Stack.readRows image.stack = .ok rows ∧
      List.Forall₂ (StackRow.Named image.stack) (p.routines.map Routine.name) rows := by
  obtain ⟨names, first, final, ha⟩ := p.assembled_of_assemble h
  exact ⟨_, ha.stack.readRows_eq, ha.stack.named_rows ha.held⟩

/-- Among distinct names each has one row. -/
theorem existsUnique_row {stack : Bytes} {names : List String} {rows : List StackRow}
    (h : List.Forall₂ (StackRow.Named stack) names rows) (hn : names.Nodup) {name : String}
    (hmem : name ∈ names) : ∃! k : Nat, ∃ row ∈ rows[k]?, row.Named stack name := by
  have hlen := h.length_eq
  obtain ⟨k, hk, hname⟩ := List.mem_iff_getElem.1 hmem
  have hrow : ∀ j (hj : j < rows.length), rows[j].Named stack names[j] := fun j hj =>
    h.get (hlen ▸ hj) hj
  refine ⟨k, ⟨rows[k], List.getElem?_eq_getElem _, hname ▸ hrow k (hlen ▸ hk)⟩, ?_⟩
  rintro j ⟨row, hj, hread⟩
  obtain ⟨hlt, rfl⟩ := List.getElem?_eq_some_iff.1 hj
  have hsame : names[j] = name := Except.ok.inj ((hrow j hlt).symm.trans hread)
  exact (List.getElem_inj hn).1 (hsame.trans hname.symm)

/-! ## Scripts -/

/-- Whatever is wrong with a script, its routines are those of the first function of each name, and
each call by name is of one of them or of a builtin. The names of the routines that are called so
are names of one row each in the image of the program. -/
theorem Script.calls_of_lower (name : String) (s : Script) :
    (s.lower name).1.routines.map Routine.name = (s.functions.map Function.name).eraseDups ∧
      ((s.lower name).1.routines.map Routine.name).Nodup ∧
      (∀ r ∈ (s.lower name).1.routines, ∃ f,
        s.functions.find? (·.name == r.name) = some f ∧ r = (f.lower s.scope).1) ∧
      (∀ r ∈ (s.lower name).1.routines, ∀ i ∈ r.code,
        (i.opcode.onScript = true →
          i.Names fun n => ((s.lower name).1.routines.map Routine.name).count n = 1) ∧
        (i.opcode = .callBuiltin → i.Names (· ∈ builtinFunctions)) ∧
        (i.opcode = .callBuiltinMethod → i.Names (· ∈ builtinMethods))) ∧
      ∀ t image, (s.lower name).1.assemble t = .ok image →
        ∃ rows, Stack.readRows image.stack = .ok rows ∧
          ∀ r ∈ (s.lower name).1.routines, ∀ i ∈ r.code, i.opcode.onScript = true →
            i.Names fun n => ∃! k : Nat, ∃ row ∈ rows[k]?, row.Named image.stack n := by
  have hnames : (s.lower name).1.routines.map Routine.name =
      (s.functions.map Function.name).eraseDups := by
    rw [← unseen_nil, ← names_firsts]
    simp only [lower, List.map_map]
    rfl
  have hnodup : ((s.lower name).1.routines.map Routine.name).Nodup := by
    rw [hnames, ← unseen_nil]
    exact nodup_unseen _ _
  have hroutine : ∀ r ∈ (s.lower name).1.routines,
      ∃ f ∈ firsts [] s.functions, r = (f.lower s.scope).1 := by
    intro r hr
    simp only [lower, List.map_map, List.mem_map, Function.comp_apply] at hr
    obtain ⟨f, hf, rfl⟩ := hr
    exact ⟨f, hf, rfl⟩
  have hclosed : ∀ r ∈ (s.lower name).1.routines, ∀ i ∈ r.code, i.Closed s.scope := by
    intro r hr
    obtain ⟨f, -, rfl⟩ := hroutine r hr
    exact f.closed_lower s.scope
  have hdeclared : ∀ n, s.scope.declares n = true →
      n ∈ (s.lower name).1.routines.map Routine.name := by
    intro n hn
    rw [hnames, List.mem_eraseDups]
    exact Scope.declares_iff.1 hn
  refine ⟨hnames, hnodup, fun r hr => ?_,
    fun r hr i hi => ⟨fun ho => ?_, fun ho => ?_, fun ho => ?_⟩, fun t image himage => ?_⟩
  · obtain ⟨f, hf, rfl⟩ := hroutine r hr
    exact ⟨f, (find?_of_mem_firsts hf).1, rfl⟩
  · refine ((hclosed r hr i hi).script ho).imp fun n hn => ?_
    rw [hnodup.count, if_pos (hdeclared n hn)]
  · exact ((hclosed r hr i hi).builtin ho).imp fun n hn => List.contains_iff_mem.1 hn
  · exact ((hclosed r hr i hi).method ho).imp fun n hn => List.contains_iff_mem.1 hn
  · obtain ⟨rows, hrows, hnamed⟩ := Program.rows_of_assemble himage
    refine ⟨rows, hrows, fun r hr i hi ho => ?_⟩
    exact ((hclosed r hr i hi).script ho).imp fun n hn =>
      existsUnique_row hnamed hnodup (hdeclared n hn)

/-- Calls of a function that is there twice, and of one that is not there. -/
def repeatedCallee : Script :=
  ⟨[], none,
    [⟨"main", ⟨0, 4⟩, [],
        [.expr ⟨7, 11⟩ (.call ⟨7, 10⟩ none false (.named "g") []),
          .expr ⟨11, 15⟩ (.call ⟨11, 14⟩ none false (.named "h") [])], ⟨0, 16⟩⟩,
      ⟨"g", ⟨17, 18⟩, [], [], ⟨17, 22⟩⟩, ⟨"g", ⟨23, 24⟩, [], [], ⟨23, 28⟩⟩]⟩

theorem calls_of_repeatedCallee :
    (repeatedCallee.lower "t").1.routines.map Routine.name = ["main", "g"] ∧
      ∃ image rows, (repeatedCallee.lower "t").1.assemble .v1 = .ok image ∧
        Stack.readRows image.stack = .ok rows ∧
        ∃! k : Nat, ∃ row ∈ rows[k]?, row.Named image.stack "g" := by
  obtain ⟨image, himage, -⟩ : ∃ image, (repeatedCallee.lower "t").1.assemble .v1 = .ok image ∧
      (fun _ => true) image = true := exists_ok_of_any (by decide +kernel)
  obtain ⟨-, -, -, -, hrows⟩ := Script.calls_of_lower "t" repeatedCallee
  obtain ⟨rows, hread, hcalls⟩ := hrows .v1 image himage
  have hmem : ⟨.scriptLocalCall, [.text "g"]⟩ ∈
      (repeatedCallee.lower "t").1.routines.flatMap Routine.code := by
    decide +kernel
  obtain ⟨r, hr, hi⟩ := List.mem_flatMap.1 hmem
  obtain ⟨callee, rest, hoperands, hrow⟩ := hcalls r hr _ hi rfl
  cases hoperands
  exact ⟨by decide +kernel, image, rows, himage, hread, hrow⟩

end Gsc
