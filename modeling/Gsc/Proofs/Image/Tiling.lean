import Gsc.Proofs.Image.RoundTrip
import Gsc.Proofs.Image.Sweep
import Mathlib.Algebra.BigOperators.Group.List.Basic
import Mathlib.Algebra.GroupWithZero.Nat

/-! # Images in one sweep

The functions of an image tile its bytecode. So reading them one by one gives the instructions of a
sweep from the start of the bytecode to its end.
-/

namespace Gsc

/-! ## Tilings -/

section Tiles

variable {α β : Type} {offset size : α → Nat}

theorem tiles_map {f : β → α} {start stop : Nat} {xs : List β} :
    Tiles offset size start (xs.map f) stop ↔
      Tiles (fun b => offset (f b)) (fun b => size (f b)) start xs stop := by
  induction xs generalizing start with
  | nil => exact Iff.rfl
  | cons x xs ih => simp only [List.map_cons, Tiles, ih]

/-- The first begins at the start, each where the sizes of those before it lead, and all sizes lead
to the end. -/
theorem Tiles.sums {start stop : Nat} {xs : List α} (h : Tiles offset size start xs stop) :
    (∀ (index : Nat) (a : α), xs[index]? = some a →
      offset a = start + ((xs.take index).map size).sum) ∧
      start + (xs.map size).sum = stop := by
  induction xs generalizing start with
  | nil => exact ⟨by simp, h⟩
  | cons x xs ih =>
      obtain ⟨hfirst, hrest⟩ := h
      obtain ⟨hoffsets, hstop⟩ := ih hrest
      refine ⟨?_, by rw [List.map_cons, List.sum_cons, ← Nat.add_assoc, hstop]⟩
      intro index a ha
      cases index with
      | zero =>
          cases ha
          simpa using hfirst
      | succ index =>
          rw [List.take_succ_cons, List.map_cons, List.sum_cons, ← Nat.add_assoc]
          exact hoffsets index a ha

end Tiles

/-! ## Two ways to read bytecode -/

namespace Disassembly

/-- Code that is read in two pieces is read as a whole. -/
theorem decodeCode_append {s : Setting} {offset : Nat} {front back : Bytes}
    {ds es : List DecodedInstruction} (hfront : decodeCode s offset front = .ok ds)
    (hback : decodeCode s (offset + front.length) back = .ok es) :
    decodeCode s offset (front ++ back) = .ok (ds ++ es) := by
  fun_induction decodeCode s offset front generalizing ds with
  | case1 offset =>
      cases hfront
      exact hback
  | case2 => cases hfront
  | case3 => cases hfront
  | case4 offset byte rest op hop raw next hsplit stop =>
      rename_i ih
      obtain ⟨rfl, hraw⟩ := Bytes.split?_eq_some_iff.1 hsplit
      obtain ⟨operands, ho, hfront⟩ := bind_eq_ok.1 hfront
      obtain ⟨more, hmore, hfront⟩ := bind_eq_ok.1 hfront
      cases hfront
      have hstop : offset + (byte :: (raw ++ next)).length = stop + next.length := by
        simp only [List.length_cons, List.length_append, hraw, stop, Opcode.encodedSize]
        omega
      rw [hstop] at hback
      have hrest := ih hmore hback
      have hbyte := OpcodeTable.byte_of_opcode? hop
      rw [List.cons_append, List.cons_append, List.append_assoc, ← hbyte]
      exact decodeCode_cons (s.table.opcode?_byte op) hraw ho hrest

theorem decodeFunction_eq_ok {s : Setting} {bytecode : Bytes} {row : StackRow}
    {f : DecodedFunction} (h : decodeFunction s bytecode row = .ok f) :
    row.offset.toNat + row.size.toNat ≤ s.length ∧
      decodeCode s row.offset.toNat ((bytecode.drop row.offset.toNat).take row.size.toNat)
        = .ok f.code := by
  unfold decodeFunction at h
  split at h
  · cases h
  · split at h
    · cases h
    · rename_i hle
      refine ⟨by omega, ?_⟩
      dsimp only at h
      cases hc : decodeCode s row.offset.toNat
          ((bytecode.drop row.offset.toNat).take row.size.toNat) with
      | error e =>
          rw [hc] at h
          cases h
      | ok code =>
          rw [hc] at h
          cases h
          rfl

/-- Rows that tile the bytecode from an offset on give what a sweep from there gives. -/
theorem decodeCode_of_decodeFunctions {s : Setting} {bytecode : Bytes} {rows : List StackRow}
    {start : Nat} {fs : List DecodedFunction} (hs : s.length = bytecode.length)
    (htiles : Tiles (·.offset.toNat) (·.size.toNat) start rows bytecode.length)
    (h : decodeFunctions s bytecode rows = .ok fs) :
    decodeCode s start (bytecode.drop start) = .ok (fs.flatMap (·.code)) := by
  induction rows generalizing start fs with
  | nil =>
      cases h
      exact decodeCode_drop_of_le s (Nat.le_of_eq htiles.symm)
  | cons row rows ih =>
      obtain ⟨rfl, htiles⟩ := htiles
      obtain ⟨f, hf, h⟩ := bind_eq_ok.1 h
      obtain ⟨rest, hrest, h⟩ := bind_eq_ok.1 h
      cases h
      obtain ⟨hfits, hcode⟩ := decodeFunction_eq_ok hf
      have hlength : ((bytecode.drop row.offset.toNat).take row.size.toNat).length
          = row.size.toNat := by
        simp only [List.length_take, List.length_drop]
        omega
      have hback : decodeCode s
          (row.offset.toNat + ((bytecode.drop row.offset.toNat).take row.size.toNat).length)
          ((bytecode.drop row.offset.toNat).drop row.size.toNat)
            = .ok (rest.flatMap (·.code)) := by
        rw [hlength, List.drop_drop]
        exact ih htiles hrest
      have hwhole := decodeCode_append hcode hback
      rw [List.take_append_drop] at hwhole
      exact hwhole

end Disassembly

/-- A stack region whose rows tile the bytecode tells of the functions that a sweep runs through. -/
theorem disassemble_of_tiles {t : OpcodeTable} {bytecode stack : Bytes} {rows : List StackRow}
    {fs : List DecodedFunction} (hrows : Stack.readRows stack = .ok rows)
    (htiles : Tiles (·.offset.toNat) (·.size.toNat) 0 rows bytecode.length)
    (h : disassembleFunctions t bytecode stack = .ok fs) :
    disassemble t bytecode stack = .ok (fs.flatMap (·.code)) := by
  rw [disassembleFunctions, hrows] at h
  exact Disassembly.decodeCode_of_decodeFunctions rfl htiles h

/-! ## Images -/

namespace Assembly

theorem tiles_of_encodeRoutines {t : OpcodeTable} {routines : List Routine} {offset : Nat}
    {pool pool' : StringPool} {bytes : Bytes} {entries : List FunctionEntry}
    (h : encodeRoutines t offset pool routines = .ok (bytes, entries, pool')) :
    Tiles (·.offset.toNat) (·.size.toNat) offset entries (offset + bytes.length) := by
  induction routines generalizing offset pool bytes entries with
  | nil =>
      cases h
      rfl
  | cons r routines ih =>
      obtain ⟨code, pool₁, start, size, back, rest, -, hstart, hsize, h₂, rfl, rfl⟩ :=
        encodeRoutines_cons_eq_ok h
      have hrest := ih h₂
      rw [Nat.add_assoc, ← List.length_append] at hrest
      refine ⟨hstart, ?_⟩
      dsimp only
      rw [hsize]
      exact hrest

end Assembly

/-- A row places its function where the entry does. -/
theorem Stack.map_zipWith_toRow {functions : List FunctionEntry} {names : List UInt32}
    (h : names.length = functions.length) :
    (List.zipWith toRow functions names).map (fun row => (row.offset, row.size))
      = functions.map fun e => (e.offset, e.size) := by
  induction functions generalizing names with
  | nil => rfl
  | cons e functions ih =>
      cases names with
      | nil => cases h
      | cons o names =>
          rw [List.zipWith_cons_cons, List.map_cons, List.map_cons, ih (Nat.succ.inj h)]
          rfl

/-- The functions of an image tile its bytecode, the rows of its stack region say where they lie,
and all their instructions together are those of a sweep over the bytecode. -/
theorem disassemble_assemble (p : Program) (t : OpcodeTable) (image : Image)
    (h : p.assemble t = .ok image) :
    (∀ (index : Nat) (e : FunctionEntry), image.functions[index]? = some e →
      e.offset.toNat = ((image.functions.take index).map (·.size.toNat)).sum) ∧
    (image.functions.map (·.size.toNat)).sum = image.bytecode.length ∧
    (∃ rows, Stack.readRows image.stack = .ok rows ∧
      rows.map (fun row => (row.offset, row.size))
        = image.functions.map fun e => (e.offset, e.size)) ∧
    ∃ fs, disassembleFunctions t image.bytecode image.stack = .ok fs ∧
      disassemble t image.bytecode image.stack = .ok (fs.flatMap (·.code)) := by
  obtain ⟨names, first, final, ha⟩ := p.assembled_of_assemble h
  have hrows := ha.stack.readRows_eq
  have hpairs := Stack.map_zipWith_toRow ha.stack.paired
  have htiles := Assembly.tiles_of_encodeRoutines ha.code
  rw [Nat.zero_add] at htiles
  -- rows and entries agree on places and sizes, so the rows tile the bytecode too
  have htiles' : Tiles (·.offset.toNat) (·.size.toNat) 0
      (List.zipWith Stack.toRow image.functions names) image.bytecode.length := by
    have hboth : Tiles (fun place : UInt32 × UInt32 => place.1.toNat) (·.2.toNat) 0
        (image.functions.map fun e => (e.offset, e.size)) image.bytecode.length :=
      tiles_map.2 htiles
    rw [← hpairs] at hboth
    exact tiles_map.1 hboth
  obtain ⟨hoffsets, hsum⟩ := htiles.sums
  rw [Nat.zero_add] at hsum
  simp only [Nat.zero_add] at hoffsets
  obtain ⟨fs, hfs, -, -⟩ := ha.readsBack
  exact ⟨hoffsets, hsum, ⟨_, hrows, hpairs⟩, fs, hfs, disassemble_of_tiles hrows htiles' hfs⟩

/-- A jump to the end of its routine, a routine without code, and a jump over a string that the
first routine has too. -/
def emptyBetween : Program where
  name := "between"
  includes := []
  animtree := none
  routines :=
    [⟨"a", 0, [], [⟨.getString, [.text "c"]⟩, ⟨.jump, [.label 0]⟩], [some 2]⟩,
      ⟨"b", 0, [], [], []⟩,
      ⟨"c", 0, [], [⟨.jump, [.label 0]⟩, ⟨.getString, [.text "c"]⟩, ⟨.finish, []⟩], [some 2]⟩]

def emptyBetweenImage : Image where
  bytecode := [11, 44, 0, 0, 0, 49, 0, 0, 0, 0, 49, 5, 0, 0, 0, 11, 44, 0, 0, 0, 1]
  stack :=
    [3, 0, 0, 0, 0, 0, 0, 0, 10, 0, 0, 0, 40, 0, 0, 0, 10, 0, 0, 0, 0, 0, 0, 0, 42, 0, 0, 0,
      10, 0, 0, 0, 11, 0, 0, 0, 44, 0, 0, 0, 97, 0, 98, 0, 99, 0]
  functions := [⟨"a", 0, 10⟩, ⟨"b", 10, 0⟩, ⟨"c", 10, 11⟩]

theorem disassemble_emptyBetween :
    emptyBetween.assemble .v1 = .ok emptyBetweenImage ∧
      (∀ (index : Nat) (e : FunctionEntry), emptyBetweenImage.functions[index]? = some e →
        e.offset.toNat = ((emptyBetweenImage.functions.take index).map (·.size.toNat)).sum) ∧
      (emptyBetweenImage.functions.map (·.size.toNat)).sum = emptyBetweenImage.bytecode.length ∧
      (∃ rows, Stack.readRows emptyBetweenImage.stack = .ok rows ∧
        rows.map (fun row => (row.offset, row.size))
          = emptyBetweenImage.functions.map fun e => (e.offset, e.size)) ∧
      ∃ fs, disassembleFunctions .v1 emptyBetweenImage.bytecode emptyBetweenImage.stack = .ok fs ∧
        disassemble .v1 emptyBetweenImage.bytecode emptyBetweenImage.stack
          = .ok (fs.flatMap (·.code)) := by
  have h : emptyBetween.assemble .v1 = .ok emptyBetweenImage := by rfl
  exact ⟨h, disassemble_assemble emptyBetween .v1 emptyBetweenImage h⟩

end Gsc
