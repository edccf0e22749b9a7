import Gsc.Proofs.Lowering.Runs

/-! # What every lowered function keeps

What one step of a run does to slots, code and findings, and what follows for whole runs: each visit
is answered, each slot has a name that is defined somewhere, and each instruction is on a slot that
is in use and calls a function that is there.
-/

namespace Gsc

/-! ## Slots that are handed out -/

namespace Draft

variable (d : Draft) (name : String) (span : Span)

@[simp]
theorem code_defineSlot : (d.defineSlot name span).2.code = d.code := by
  rcases d.defineSlot_cases name span with ⟨slot, -, he⟩ | ⟨-, he⟩ | ⟨-, he⟩
  all_goals rw [he]
  rfl

@[simp]
theorem arrayLoops_defineSlot : (d.defineSlot name span).2.arrayLoops = d.arrayLoops := by
  rcases d.defineSlot_cases name span with ⟨slot, -, he⟩ | ⟨-, he⟩ | ⟨-, he⟩
  all_goals rw [he]
  rfl

variable {d name span}

/-- At most the new name joins the names in use. -/
theorem getElem?_of_defineSlot {k : Nat} {x : String}
    (h : (d.defineSlot name span).2.slots.names.toList[k]? = some x) :
    d.slots.names.toList[k]? = some x ∨ k = (d.defineSlot name span).1 ∧ x = name := by
  rcases d.defineSlot_cases name span with ⟨slot, -, he⟩ | ⟨-, he⟩ | ⟨-, he⟩
  · rw [he] at h
    exact .inl h
  · rw [he, Array.toList_push, List.getElem?_append] at h
    rw [he]
    split at h
    · exact .inl h
    · rename_i hk
      obtain ⟨hlt, hx⟩ := List.getElem?_eq_some_iff.1 h
      rw [List.length_singleton] at hlt
      rw [Array.length_toList] at hk hlt
      rw [List.getElem_singleton] at hx
      exact .inr ⟨by rw [Slots.size]; omega, hx.symm⟩
  · rw [he] at h
    exact .inl h

/-- Unless something was reported, the slot is that of the name. -/
theorem getElem?_defineSlot (h : (d.defineSlot name span).2.findings.toList = []) :
    (d.defineSlot name span).2.slots.names.toList[(d.defineSlot name span).1]? = some name := by
  rcases d.defineSlot_cases name span with ⟨slot, hf, he⟩ | ⟨-, he⟩ | ⟨-, he⟩
  · rw [he]
    exact Slots.getElem?_of_find? hf
  · rw [he]
    simp [Slots.size]
  · rw [he] at h
    simp [report] at h

end Draft

/-! ## Loops over arrays -/

namespace ArraySlots

def arrayName (number : Nat) : String := "$array" ++ toString number

def keyName (number : Nat) : String := "$key" ++ toString number

def names (number : Nat) : List String := [arrayName number, keyName number]

def firstCode (slots : ArraySlots) : List Instruction :=
  [⟨.evalLocalRef, [.byte slots.array.toUInt8]⟩, ⟨.setVariable, []⟩,
    ⟨.evalLocal, [.byte slots.array.toUInt8]⟩,
    ⟨.callBuiltin, [.text "getfirstarraykey", .byte 1]⟩,
    ⟨.evalLocalRef, [.byte slots.key.toUInt8]⟩, ⟨.setVariable, []⟩]

theorem code_first (slots : ArraySlots) (d : Draft) :
    (slots.first d).code.toList = d.code.toList ++ slots.firstCode := by
  simp [first, firstCode, Draft.store, Draft.emitSlot, Draft.emit, Draft.callBuiltin,
    Draft.emitWith]

variable (d : Draft) (span : Span)

@[simp]
theorem code_define : (define d span).2.code = d.code := by
  simp [define]

@[simp]
theorem arrayLoops_define : (define d span).2.arrayLoops = d.arrayLoops + 1 := by
  simp [define]

variable {d span}

theorem getElem?_of_define {k : Nat} {x : String}
    (h : (define d span).2.slots.names.toList[k]? = some x) :
    d.slots.names.toList[k]? = some x ∨
      (k = (define d span).1.array ∨ k = (define d span).1.key) ∧ x ∈ names d.arrayLoops := by
  rcases Draft.getElem?_of_defineSlot h with h | ⟨hk, hx⟩
  · rcases Draft.getElem?_of_defineSlot h with h | ⟨hk, hx⟩
    · exact .inl h
    · exact .inr ⟨.inl hk, List.mem_cons.2 (.inl hx)⟩
  · exact .inr ⟨.inr hk, List.mem_cons_of_mem _ (List.mem_singleton.2 hx)⟩

end ArraySlots

namespace Draft

variable (d : Draft) (scope : Scope) (collection : Expr)

/-- Entering a loop first gives it its slots, then lowers what it goes through. -/
theorem evaluates_collection :
    (ArraySlots.define d collection.span).2.Evaluates scope (collection.visits scope)
      (collection.lower scope (ArraySlots.define d collection.span).2) :=
  collection.evaluates_lower scope _

theorem slots_enter :
    (d.enter scope collection).slots = (ArraySlots.define d collection.span).2.slots :=
  (evaluates_collection d scope collection).slots

@[simp]
theorem arrayLoops_enter : (d.enter scope collection).arrayLoops = d.arrayLoops + 1 :=
  (evaluates_collection d scope collection).arrayLoops.trans (ArraySlots.arrayLoops_define _ _)

end Draft

/-! ## Runs -/

/-- The instruction calls what is there, and is on a slot that is in use if it is on one. -/
structure Instruction.Fits (scope : Scope) (size : Nat) (i : Instruction) : Prop where
  closed : i.Closed scope
  inUse : i.opcode.onSlot = true → ∃ slot < size, i.operands = [.byte slot.toUInt8]

namespace Instruction

variable {scope : Scope} {size : Nat} {i : Instruction}

theorem Inert.fits (h : i.Inert scope) : i.Fits scope size := by
  refine ⟨h.closed, fun hs => ?_⟩
  rw [h.offSlot] at hs
  cases hs

theorem Fits.slot {opcode : Opcode} {slot : Nat} (ho : opcode.onSlot = true) (hs : slot < size) :
    Fits scope size ⟨opcode, [.byte slot.toUInt8]⟩ :=
  ⟨closed_of_onSlot ho, fun _ => ⟨slot, hs, rfl⟩⟩

theorem Reads.fits {slots : Slots} {visits : List Visit} (h : i.Reads slots visits) :
    i.Fits scope slots.size := by
  obtain ⟨span, name, slot, -, hs, rfl⟩ := h
  exact .slot rfl (Slots.lt_size_of_find? hs)

theorem Fits.mono {size' : Nat} (h : i.Fits scope size) (hs : size ≤ size') :
    i.Fits scope size' := by
  refine ⟨h.closed, fun ho => ?_⟩
  obtain ⟨slot, hslot, hi⟩ := h.inUse ho
  exact ⟨slot, Nat.lt_of_lt_of_le hslot hs, hi⟩

end Instruction

theorem ArraySlots.fits_firstCode {scope : Scope} {slots : ArraySlots} {size : Nat}
    (harray : slots.array < size) (hkey : slots.key < size) :
    ∀ i ∈ slots.firstCode, i.Fits scope size := by
  have hcall : Instruction.Inert scope
      ⟨.callBuiltin, [.text "getfirstarraykey", .byte 1]⟩ :=
    Instruction.inert_callBuiltin (by decide) _
  have hset : Instruction.Inert scope ⟨.setVariable, []⟩ := Instruction.inert_of_plain rfl
  simp only [firstCode, List.forall_mem_cons]
  exact ⟨.slot rfl harray, hset.fits, .slot rfl harray, hcall.fits,
    .slot rfl hkey, hset.fits, by simp⟩

namespace Draft

def Fits (scope : Scope) (d : Draft) : Prop :=
  ∀ i ∈ d.code.toList, i.Fits scope d.slots.size

theorem Fits.append {scope : Scope} {d d' : Draft} {added : List Instruction}
    (h : d.Fits scope) (hsize : d.slots.size ≤ d'.slots.size)
    (hcode : d'.code.toList = d.code.toList ++ added)
    (hadded : ∀ i ∈ added, i.Fits scope d'.slots.size) : d'.Fits scope := by
  intro i hi
  rw [hcode] at hi
  rcases List.mem_append.1 hi with hi | hi
  · exact (h i hi).mono hsize
  · exact hadded i hi

theorem Fits.widen {scope : Scope} {d d' : Draft} (h : d.Fits scope) (hcode : d'.code = d.code)
    (hg : d.Grows d') : d'.Fits scope := by
  intro i hi
  rw [hcode] at hi
  exact (h i hi).mono hg.size_le

theorem Fits.emitSlot {scope : Scope} {d : Draft} {opcode : Opcode} {slot : Nat}
    (h : d.Fits scope) (ho : opcode.onSlot = true) (hs : slot < d.slots.size) :
    (d.emitSlot opcode slot).Fits scope := by
  refine h.append (Nat.le_refl _) (Array.toList_push ..) ?_
  simp only [List.mem_singleton, forall_eq]
  exact .slot ho hs

theorem Fits.evaluates {scope : Scope} {visits : List Visit} {d d' : Draft} (h : d.Fits scope)
    (he : d.Evaluates scope visits d') : d'.Fits scope := by
  obtain ⟨added, hcode, hadded⟩ := he.code
  refine h.append (Nat.le_of_eq (by rw [he.slots])) hcode fun i hi => ?_
  rw [he.slots]
  exact (hadded i hi).elim Instruction.Inert.fits Instruction.Reads.fits

namespace Runs

variable {scope : Scope} {visits : List Visit} {loops : List ArrayLoop} {d d' : Draft}

theorem fits (h : d.Runs scope visits loops d') (hd : d.Fits scope) : d'.Fits scope := by
  induction h with
  | refl => exact hd
  | evaluate _ he ih => exact (ih hd).evaluates he
  | refer _ hs ih => exact (ih hd).emitSlot rfl hs
  | @define _ _ _ d' name span opcode _ ho ih =>
      have hdefined := (ih hd).widen (code_defineSlot d' name span)
        (.of_extends ((Extends.refl d').defineSlot name span))
      exact hdefined.emitSlot (Opcode.onSlot_of_stores ho) (defineSlot_lt_size _ _ _)
  | @enter _ _ _ d' item collection _ ih =>
      have hopened := (ih hd).widen (ArraySlots.code_define d' collection.span)
        (.of_extends ((Extends.refl d').defineArraySlots collection.span))
      obtain ⟨harray, hkey⟩ := ArraySlots.lt_size_define d' collection.span
      refine (hopened.evaluates (evaluates_collection d' scope collection)).append (Nat.le_refl _)
        (ArraySlots.code_first _ _) (ArraySlots.fits_firstCode ?_ ?_)
      · exact (slots_enter d' scope collection).symm ▸ harray
      · exact (slots_enter d' scope collection).symm ▸ hkey
  | reload _ hk ih => exact (ih hd).emitSlot rfl hk.lt_size

theorem arrayLoops_eq (h : d.Runs scope visits loops d') :
    d'.arrayLoops = d.arrayLoops + loops.length := by
  induction h with
  | refl => rfl
  | evaluate _ he ih => exact he.arrayLoops.trans ih
  | refer _ _ ih | reload _ _ ih => exact ih
  | define name span opcode _ _ ih =>
      rw [← ih]
      exact arrayLoops_defineSlot _ _ _
  | enter item collection _ ih =>
      rw [arrayLoops_enter, ih, List.length_append, List.length_singleton]
      omega

/-- Whatever is wrong with a visit is among the findings. -/
theorem answered (h : d.Runs scope visits loops d') :
    ∀ v ∈ visits, v.Answered d'.slots d'.findings.toList := by
  induction h with
  | refl => simp
  | evaluate _ he ih =>
      intro v hv
      rw [he.slots]
      rcases List.mem_append.1 hv with hv | hv
      · exact (ih v hv).mono List.prefix_rfl he.findings
      · exact he.answered v hv
  | refer _ _ ih | reload _ _ ih => exact ih
  | @define _ _ _ d' name span opcode _ _ ih =>
      intro v hv
      rcases List.mem_append.1 hv with hv | hv
      · have hext := (Extends.refl d').defineSlot name span
        exact (ih v hv).mono hext.slots hext.findings
      · rw [List.mem_singleton.1 hv]
        trivial
  | @enter _ _ _ d' item collection h ih =>
      intro v hv
      rcases List.mem_append.1 hv with hv | hv
      · have hgrows := grows_enter d' scope collection
        exact (ih v hv).mono hgrows.slots hgrows.findings
      · rw [slots_enter]
        exact (evaluates_collection d' scope collection).answered v hv

/-- Every slot is that of a variable which was there before or is defined on the way, or belongs
to a loop. -/
theorem mem_names (h : d.Runs scope visits loops d') {x : String}
    (hx : x ∈ d'.slots.names.toList) :
    x ∈ d.slots.names.toList ∨ .use (.define x) ∈ visits ∨
      ∃ n < d'.arrayLoops, x ∈ ArraySlots.names n := by
  induction h with
  | refl => exact .inl hx
  | evaluate _ he ih =>
      rw [he.slots] at hx
      rw [he.arrayLoops]
      exact (ih hx).imp_right (Or.imp_left (List.mem_append_left _))
  | refer _ _ ih | reload _ _ ih => exact ih hx
  | @define _ _ _ d' name span opcode _ _ ih =>
      obtain ⟨k, hk⟩ := List.mem_iff_getElem?.1 hx
      rcases getElem?_of_defineSlot hk with hk | ⟨-, rfl⟩
      · have hloops : ((d'.defineSlot name span).2.emitSlot opcode
            (d'.defineSlot name span).1).arrayLoops = d'.arrayLoops := arrayLoops_defineSlot _ _ _
        rw [hloops]
        exact (ih (List.mem_of_getElem? hk)).imp_right (Or.imp_left (List.mem_append_left _))
      · exact .inr (.inl (List.mem_append_right _ (List.mem_singleton_self _)))
  | @enter _ _ _ d' item collection _ ih =>
      rw [slots_enter] at hx
      rw [arrayLoops_enter]
      obtain ⟨k, hk⟩ := List.mem_iff_getElem?.1 hx
      rcases ArraySlots.getElem?_of_define hk with hk | ⟨-, hx⟩
      · rcases ih (List.mem_of_getElem? hk) with hold | hdef | ⟨n, hn, hmem⟩
        · exact .inl hold
        · exact .inr (.inl (List.mem_append_left _ hdef))
        · exact .inr (.inr ⟨n, Nat.lt_succ_of_lt hn, hmem⟩)
      · exact .inr (.inr ⟨d'.arrayLoops, Nat.lt_succ_self _, hx⟩)

end Runs

end Draft

/-! ## Functions -/

/-- The distinct names that were not seen before, in order. -/
def unseen (seen names : List String) : List String :=
  (names.filter fun x => !seen.contains x).eraseDups

section

variable {seen names : List String} {x : String}

theorem unseen_cons_of_mem (h : x ∈ seen) : unseen seen (x :: names) = unseen seen names := by
  rw [unseen, List.filter_cons_of_neg (by simpa using h), unseen]

/-- A new name counts as seen from here on. -/
theorem unseen_cons_of_not_mem (h : x ∉ seen) :
    unseen seen (x :: names) = x :: unseen (x :: seen) names := by
  rw [unseen, List.filter_cons_of_pos (by simpa using h), List.eraseDups_cons,
    List.filter_filter, unseen]
  congr 2
  refine List.filter_congr fun y _ => ?_
  rw [List.contains_cons, Bool.not_or]

theorem unseen_nil (names : List String) : unseen [] names = names.eraseDups := by
  rw [unseen, List.filter_eq_self.2 (by simp)]

end

namespace Draft

theorem code_defineParams (seen : List String) (params : List (Located String)) (d : Draft) :
    (defineParams seen params d).code = d.code := by
  induction params generalizing seen d with
  | nil => rfl
  | cons p rest ih =>
      unfold defineParams
      split
      · exact ih _ _
      · rw [ih, code_defineSlot]

theorem arrayLoops_defineParams (seen : List String) (params : List (Located String))
    (d : Draft) : (defineParams seen params d).arrayLoops = d.arrayLoops := by
  induction params generalizing seen d with
  | nil => rfl
  | cons p rest ih =>
      unfold defineParams
      split
      · exact ih _ _
      · rw [ih, arrayLoops_defineSlot]

/-- Distinct parameters get slots in their order, as long as slots are left. -/
theorem names_defineParams {seen : List String} {d : Draft} (params : List (Located String))
    (h : d.slots.names.toList ⊆ seen) :
    (defineParams seen params d).slots.names.toList = d.slots.names.toList ++
      (unseen seen (params.map Located.value)).take (Slots.limit - d.slots.size) := by
  induction params generalizing seen d with
  | nil => simp [defineParams, unseen]
  | cons p rest ih =>
      unfold defineParams
      by_cases hseen : p.value ∈ seen
      · rw [if_pos (List.contains_iff_mem.2 hseen), List.map_cons, unseen_cons_of_mem hseen]
        exact ih h
      · rw [if_neg (mt List.contains_iff_mem.1 hseen), List.map_cons, unseen_cons_of_not_mem hseen]
        rcases d.defineSlot_cases p.value p.span with ⟨slot, hfound, -⟩ | ⟨hroom, he⟩ | ⟨hfull, he⟩
        · exact (hseen (h (List.mem_of_getElem? (Slots.getElem?_of_find? hfound)))).elim
        · have hnames : (d.defineSlot p.value p.span).2.slots.names.toList =
              d.slots.names.toList ++ [p.value] := by
            rw [he, Array.toList_push]
          have hsize : Slots.limit - d.slots.size =
              Slots.limit - (d.defineSlot p.value p.span).2.slots.size + 1 := by
            rw [he]
            simp only [Slots.size, Array.size_push] at hroom ⊢
            omega
          have hsub : (d.defineSlot p.value p.span).2.slots.names.toList ⊆ p.value :: seen := by
            rw [hnames]
            exact List.append_subset.2 ⟨List.subset_cons_of_subset _ h, by simp⟩
          rw [ih hsub, hnames, hsize, List.take_succ_cons, List.append_assoc,
            List.singleton_append]
        · -- no slot is left, and none will be
          have hnone : Slots.limit - d.slots.size = 0 := Nat.sub_eq_zero_of_le hfull
          have hrest := ih (d := d.report .tooManyLocals p.span)
            (List.subset_cons_of_subset p.value h)
          rw [he, hrest]
          simp only [report, hnone, List.take_zero]

end Draft

namespace Function

def start (f : Function) : Draft := Draft.empty.defineParams [] f.params

def draft (scope : Scope) (f : Function) : Draft :=
  (lowerBody scope f.body (f.start.emit .createLocalVariables)).emit .finish

theorem lower_eq (scope : Scope) (f : Function) :
    f.lower scope = ((f.draft scope).toRoutine f.name f.start.slots.size,
      (f.draft scope).findings.toList) :=
  rfl

theorem runs_draft (scope : Scope) (f : Function) :
    (f.start.emit .createLocalVariables).Runs scope (f.visits scope) f.arrayLoops
      (f.draft scope) :=
  (runs_lowerBody scope f.body _).emit _ rfl

variable (f : Function)

theorem code_start : f.start.code.toList = [] := by
  rw [start, Draft.code_defineParams]
  rfl

theorem arrayLoops_emit_start : (f.start.emit .createLocalVariables).arrayLoops = 0 :=
  Draft.arrayLoops_defineParams _ _ _

theorem names_start :
    f.start.slots.names.toList = (f.params.map Located.value).eraseDups.take Slots.limit := by
  rw [start, Draft.names_defineParams f.params (by simp [Draft.empty, Slots.empty]), unseen_nil]
  rfl

theorem valid_start : f.start.slots.Valid :=
  (Draft.extends_defineParams [] f.params .empty).valid Slots.valid_empty

/-- The code of a function starts with the instruction that makes room for its variables. -/
theorem code_draft (scope : Scope) :
    ∃ rest, (f.draft scope).code.toList = ⟨.createLocalVariables, []⟩ :: rest := by
  obtain ⟨rest, hrest⟩ := (f.runs_draft scope).grows.code
  refine ⟨rest, ?_⟩
  rw [← hrest, Draft.emit, Draft.emitWith, Array.toList_push, code_start]
  rfl

theorem valid_draft (scope : Scope) : (f.draft scope).slots.Valid :=
  (f.runs_draft scope).grows.valid f.valid_start

theorem fits_draft (scope : Scope) : (f.draft scope).Fits scope := by
  refine (f.runs_draft scope).fits fun i hi => ?_
  rw [Draft.emit, Draft.emitWith, Array.toList_push, code_start, List.nil_append,
    List.mem_singleton] at hi
  rw [hi]
  exact (Instruction.inert_of_plain rfl).fits

end Function

end Gsc
