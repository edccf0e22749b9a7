import Gsc.Proofs.Except
import Gsc.Proofs.Lowering.Invariants
import Gsc.Proofs.Lowering.Operands
import Gsc.Proofs.Script.Names
import Mathlib.Data.List.Nodup

/-! # Local variables

The slots of a routine: distinct names, the parameters first, and no instruction on a slot that is
not in use. A variable has been given a value before it is read, provided that no loop goes through
what only its own slots are called. No source can spell such a name; so in a script that was read,
the slots of its loops are apart from each other and from the slots of its variables.
-/

namespace Gsc

/-! ## Names of loops -/

namespace ArraySlots

theorem toString_injective {m n : Nat} (h : toString m = toString n) : m = n := by
  rw [Nat.toString_eq_ofList_toDigits, Nat.toString_eq_ofList_toDigits, String.ofList_inj] at h
  rw [← Nat.ofDigitChars_ten_toDigits (n := m), h, Nat.ofDigitChars_ten_toDigits]

theorem arrayName_ne_keyName (m n : Nat) : arrayName m ≠ keyName n := by
  intro h
  have hchars := congrArg String.toList h
  simp [arrayName, keyName] at hchars

/-- Loops have no name in common. -/
theorem eq_of_mem_names {m n : Nat} {x : String} (hm : x ∈ names m) (hn : x ∈ names n) :
    m = n := by
  simp only [names, List.mem_cons, List.not_mem_nil, or_false] at hm hn
  rcases hm with rfl | rfl
  · rcases hn with hn | hn
    · exact toString_injective ((String.append_right_inj _).1 hn)
    · exact (arrayName_ne_keyName _ _ hn).elim
  · rcases hn with hn | hn
    · exact (arrayName_ne_keyName _ _ hn.symm).elim
    · exact toString_injective ((String.append_right_inj _).1 hn)

/-- No source can spell the name of a loop. -/
theorem not_isName_of_mem_names {n : Nat} {x : String} (h : x ∈ names n) :
    ¬ isName x.toList = true := by
  simp only [names, List.mem_cons, List.not_mem_nil, or_false] at h
  rcases h with rfl | rfl
  · simp [arrayName, isName, isNameStart]
  · simp [keyName, isName, isNameStart]

end ArraySlots

/-! ## Variables that have a value -/

/-- The variable of a slot is a parameter, or the code gives it a value. -/
def Given (params : Nat) (code : List Instruction) (slot : UInt8) : Prop :=
  slot.toNat < params ∨ ∃ opcode : Opcode, opcode.stores = true ∧ ⟨opcode, [.byte slot]⟩ ∈ code

/-- Whatever the code reads has been given a value further up. -/
def ReadsFollow (params : Nat) (code : List Instruction) : Prop :=
  ∀ i slot, code[i]? = some ⟨.evalLocal, [.byte slot]⟩ → Given params (code.take i) slot

section

variable {params : Nat} {code code' : List Instruction} {slot : UInt8}

theorem Given.mono (h : Given params code slot) (hc : code ⊆ code') : Given params code' slot :=
  h.imp_right fun ⟨opcode, ho, hmem⟩ => ⟨opcode, ho, hc hmem⟩

theorem given_of_lt {n : Nat} (h : n < params) : Given params code n.toUInt8 := by
  refine .inl (Nat.lt_of_le_of_lt ?_ h)
  rw [Nat.toUInt8_eq, UInt8.toNat_ofNat']
  exact Nat.mod_le _ _

theorem given_of_evalLocalRef (h : ⟨.evalLocalRef, [.byte slot]⟩ ∈ code) : Given params code slot :=
  .inr ⟨.evalLocalRef, rfl, h⟩

namespace ReadsFollow

theorem append (h : ReadsFollow params code) (added : List Instruction)
    (hadded : ∀ slot, ⟨.evalLocal, [.byte slot]⟩ ∈ added → Given params code slot) :
    ReadsFollow params (code ++ added) := by
  intro i slot hi
  by_cases hlt : i < code.length
  · rw [List.getElem?_append_left hlt] at hi
    rw [List.take_append_of_le_length (Nat.le_of_lt hlt)]
    exact h i slot hi
  · have hle := Nat.le_of_not_lt hlt
    rw [List.getElem?_append_right hle] at hi
    refine (hadded slot (List.mem_of_getElem? hi)).mono ?_
    rw [List.take_append, List.take_of_length_le hle]
    exact List.subset_append_left _ _

/-- The array is kept before its first key is asked for. -/
theorem firstCode (h : ReadsFollow params code) (slots : ArraySlots) :
    ReadsFollow params (code ++ slots.firstCode) := by
  have hkept : ReadsFollow params (code ++
      [⟨.evalLocalRef, [.byte slots.array.toUInt8]⟩, ⟨.setVariable, []⟩]) :=
    h.append _ (by simp)
  have hall := hkept.append (slots.firstCode.drop 2) fun slot hslot => by
    have hsame : slot = slots.array.toUInt8 := by simpa [ArraySlots.firstCode] using hslot
    subst hsame
    exact given_of_evalLocalRef (by simp)
  rwa [List.append_assoc] at hall

/-- The operands of the first instruction matter to no read. -/
theorem of_cons (h : ReadsFollow params (⟨.createLocalVariables, []⟩ :: code))
    (operands : List Operand) : ReadsFollow params (⟨.createLocalVariables, operands⟩ :: code) := by
  intro i slot hi
  cases i with
  | zero => cases hi
  | succ i =>
      refine (h (i + 1) slot hi).imp_right ?_
      rintro ⟨opcode, ho, hmem⟩
      refine ⟨opcode, ho, ?_⟩
      rw [List.take_succ_cons, List.mem_cons] at hmem ⊢
      exact .inr (hmem.resolve_left nofun)

end ReadsFollow

end

/-- Expressions read variables that have a value. -/
theorem Draft.Evaluates.readsFollow {scope : Scope} {visits : List Visit} {d d' : Draft}
    {params : Nat} (he : d.Evaluates scope visits d') (h : ReadsFollow params d.code.toList)
    (hreads : ∀ span name slot, .use (.read span name) ∈ visits →
      d.slots.find? name = some slot → Given params d.code.toList slot.toUInt8) :
    ReadsFollow params d'.code.toList := by
  obtain ⟨added, hcode, hadded⟩ := he.code
  rw [hcode]
  refine h.append added fun b hb => ?_
  rcases hadded _ hb with hinert | ⟨span, name, slot, hv, hs, hi⟩
  · cases hinert.offSlot
  · rw [Instruction.mk.injEq, List.cons.injEq, Operand.byte.injEq] at hi
    rw [hi.2.1]
    exact hreads span name slot hv hs

/-- What the loop with the given number goes through reads no name of its own slots. -/
def ArrayLoop.Spares (number : Nat) (l : ArrayLoop) : Prop :=
  ∀ span name, .read span name ∈ l.collection.uses → name ∉ ArraySlots.names number

/-- The same for loops that are numbered from the given number on. -/
def ArrayLoop.AllSpare (number : Nat) (loops : List ArrayLoop) : Prop :=
  ∀ (n : Nat) (l : ArrayLoop), loops[n]? = some l → l.Spares (number + n)

theorem Expr.mem_uses_of_visits {scope : Scope} {e : Expr} {u : Use}
    (h : .use u ∈ e.visits scope) : u ∈ e.uses := by
  rw [← e.uses_visits scope, List.mem_flatMap]
  exact ⟨_, h, List.mem_singleton_self _⟩

namespace Draft

/-- Every variable has a value, and had one when it was read. -/
structure Prepared (params : Nat) (d : Draft) : Prop where
  held : ∀ slot < d.slots.size, Given params d.code.toList slot.toUInt8
  follow : ReadsFollow params d.code.toList

namespace Prepared

variable {params : Nat} {d d' : Draft}

/-- At most one slot is new, and it is given a value at once. -/
theorem emitSlot (h : d.Prepared params) {opcode : Opcode} {slot : Nat} (hc : d'.code = d.code)
    (hs : ∀ k < d'.slots.size, k < d.slots.size ∨ k = slot) (ho : opcode.stores = true) :
    (d'.emitSlot opcode slot).Prepared params := by
  have hcode : (d'.emitSlot opcode slot).code.toList =
      d.code.toList ++ [⟨opcode, [.byte slot.toUInt8]⟩] := by
    rw [Draft.emitSlot, emitWith, Array.toList_push, hc]
  refine ⟨fun k hk => ?_, ?_⟩
  · rw [hcode]
    rcases hs k hk with hk | rfl
    · exact (h.held k hk).mono (List.subset_append_left _ _)
    · exact .inr ⟨opcode, ho, by simp⟩
  · rw [hcode]
    refine h.follow.append _ fun b hb => ?_
    rw [List.mem_singleton, Instruction.mk.injEq] at hb
    rw [← hb.1] at ho
    cases ho

theorem evaluates (h : d.Prepared params) {scope : Scope} {visits : List Visit}
    (he : d.Evaluates scope visits d') : d'.Prepared params := by
  refine ⟨fun slot hslot => ?_, he.readsFollow h.follow fun _ _ slot _ hs => ?_⟩
  · rw [he.slots] at hslot
    exact (h.held slot hslot).mono (Grows.of_evaluates he).code.subset
  · exact h.held slot (Slots.lt_size_of_find? hs)

theorem reload (h : d.Prepared params) {slot : Nat} (hk : d.Keeps slot) :
    (d.emitSlot .evalLocal slot).Prepared params := by
  have hcode : (d.emitSlot .evalLocal slot).code.toList =
      d.code.toList ++ [⟨.evalLocal, [.byte slot.toUInt8]⟩] := Array.toList_push ..
  refine ⟨fun k hk' => ?_, ?_⟩
  · rw [hcode]
    exact (h.held k hk').mono (List.subset_append_left _ _)
  · rw [hcode]
    refine h.follow.append _ fun b hb => ?_
    rw [List.mem_singleton, Instruction.mk.injEq, List.cons.injEq, Operand.byte.injEq] at hb
    rw [hb.2.1]
    exact given_of_evalLocalRef hk.stored

/-- While a loop is entered its own slots have no value yet, but nothing asks for them. -/
theorem enter (h : d.Prepared params) {scope : Scope} {item : Located String} {collection : Expr}
    (hspares : ArrayLoop.Spares d.arrayLoops ⟨item, collection⟩) :
    (d.enter scope collection).Prepared params := by
  have he := evaluates_collection d scope collection
  have hfollow : ReadsFollow params
      (collection.lower scope (ArraySlots.define d collection.span).2).code.toList := by
    refine he.readsFollow (by rw [ArraySlots.code_define]; exact h.follow) ?_
    intro span name slot hv hs
    rw [ArraySlots.code_define]
    rcases ArraySlots.getElem?_of_define (Slots.getElem?_of_find? hs) with hold | ⟨-, hname⟩
    · exact h.held slot (Slots.lt_size_of_getElem? hold)
    · exact (hspares span name (Expr.mem_uses_of_visits hv) hname).elim
  have hcode := ArraySlots.code_first (ArraySlots.define d collection.span).1
    (collection.lower scope (ArraySlots.define d collection.span).2)
  refine ⟨fun slot hslot => ?_, ?_⟩
  · rw [slots_enter, ← Slots.length_names] at hslot
    rcases ArraySlots.getElem?_of_define (List.getElem?_eq_getElem hslot) with hold | ⟨hk, -⟩
    · exact (h.held slot (Slots.lt_size_of_getElem? hold)).mono
        (grows_enter d scope collection).code.subset
    · refine given_of_evalLocalRef (hcode ▸ List.mem_append_right _ ?_)
      rcases hk with rfl | rfl
      · simp [ArraySlots.firstCode]
      · simp [ArraySlots.firstCode]
  · exact hcode ▸ hfollow.firstCode _

end Prepared

/-- A function reads no variable before it has a value. -/
theorem Runs.prepared {params : Nat} {scope : Scope} {visits : List Visit}
    {loops : List ArrayLoop} {d d' : Draft} (h : d.Runs scope visits loops d')
    (hd : d.Prepared params) (hspares : ArrayLoop.AllSpare d.arrayLoops loops) :
    d'.Prepared params := by
  induction h with
  | refl => exact hd
  | evaluate _ he ih => exact (ih hd hspares).evaluates he
  | refer _ _ ih => exact (ih hd hspares).emitSlot rfl (fun _ hk => .inl hk) rfl
  | @define _ _ _ d' name span opcode _ ho ih =>
      refine (ih hd hspares).emitSlot (code_defineSlot _ _ _) (fun k hk => ?_) ho
      rw [← Slots.length_names] at hk
      exact (getElem?_of_defineSlot (List.getElem?_eq_getElem hk)).imp
        Slots.lt_size_of_getElem? And.left
  | @enter _ loops _ d' item collection h ih =>
      have hold := ih hd fun n l hn =>
        hspares n l <| getElem?_of_prefix (List.prefix_append _ _) hn
      have hlast := hspares loops.length ⟨item, collection⟩ (by simp)
      rw [← h.arrayLoops_eq] at hlast
      exact hold.enter hlast
  | reload _ hk ih => exact (ih hd hspares).reload hk

end Draft

/-! ## Slots of loops -/

/-- The slots of a loop have its names, and the code keeps the array and its first key there. -/
structure ArraySlots.Opened (number : Nat) (locals : List String) (code : List Instruction)
    (slots : ArraySlots) : Prop where
  array : locals[slots.array]? = some (arrayName number)
  key : locals[slots.key]? = some (keyName number)
  first : slots.firstCode <:+: code

namespace ArraySlots

/-- The slots of loops that are numbered from the given number on. -/
def AllOpened (number : Nat) (locals : List String) (code : List Instruction)
    (all : List ArraySlots) : Prop :=
  ∀ (n : Nat) (slots : ArraySlots), all[n]? = some slots → slots.Opened (number + n) locals code

variable {number : Nat} {locals locals' : List String} {code code' : List Instruction}
  {slots : ArraySlots}

theorem Opened.mono (h : slots.Opened number locals code) (hl : locals <+: locals')
    (hc : code <+: code') : slots.Opened number locals' code' where
  array := getElem?_of_prefix hl h.array
  key := getElem?_of_prefix hl h.key
  first := h.first.trans hc.isInfix

theorem AllOpened.mono {all : List ArraySlots} (h : AllOpened number locals code all)
    (hl : locals <+: locals') (hc : code <+: code') : AllOpened number locals' code' all :=
  fun n slots hn => (h n slots hn).mono hl hc

theorem AllOpened.concat {all : List ArraySlots} (h : AllOpened number locals code all)
    (hs : slots.Opened (number + all.length) locals code) :
    AllOpened number locals code (all ++ [slots]) := by
  intro n own hn
  rw [List.getElem?_append] at hn
  split at hn
  · exact h n own hn
  · rename_i hlen
    obtain ⟨hlt, rfl⟩ := List.getElem?_eq_some_iff.1 hn
    rw [List.length_singleton] at hlt
    obtain rfl : n = all.length := by omega
    exact List.getElem_singleton .. ▸ hs

theorem Opened.mem_names (h : slots.Opened number locals code) {k : Nat}
    (hk : k ∈ [slots.array, slots.key]) : ∃ x ∈ names number, locals[k]? = some x := by
  simp only [List.mem_cons, List.not_mem_nil, or_false] at hk
  rcases hk with rfl | rfl
  · exact ⟨_, List.mem_cons_self, h.array⟩
  · exact ⟨_, List.mem_cons_of_mem _ (List.mem_singleton_self _), h.key⟩

/-- No two slots of loops are the same. -/
theorem AllOpened.nodup {all : List ArraySlots} (h : AllOpened number locals code all) :
    (all.flatMap fun slots => [slots.array, slots.key]).Nodup := by
  rw [List.nodup_flatMap]
  constructor
  · intro slots hslots
    obtain ⟨n, hn⟩ := List.mem_iff_getElem?.1 hslots
    have hown := h n slots hn
    rw [List.nodup_cons, List.mem_singleton]
    refine ⟨fun heq => ?_, List.nodup_singleton _⟩
    have harray := hown.array
    rw [heq, hown.key, Option.some.injEq] at harray
    exact arrayName_ne_keyName _ _ harray.symm
  · rw [List.pairwise_iff_getElem]
    intro i j hi hj hij k hki hkj
    obtain ⟨x, hx, hk⟩ := (h i _ (List.getElem?_eq_getElem hi)).mem_names hki
    obtain ⟨y, hy, hk'⟩ := (h j _ (List.getElem?_eq_getElem hj)).mem_names hkj
    rw [hk, Option.some.injEq] at hk'
    have hsame := eq_of_mem_names hx (hk' ▸ hy)
    omega

/-- A loop that was entered without a finding has its slots. -/
theorem opened_enter {d : Draft} {scope : Scope} {collection : Expr}
    (hf : (d.enter scope collection).findings.toList = []) :
    (define d collection.span).1.Opened d.arrayLoops
      (d.enter scope collection).slots.names.toList (d.enter scope collection).code.toList := by
  have hopened : (define d collection.span).2.findings.toList = [] :=
    List.prefix_nil.1 (hf ▸ (Draft.evaluates_collection d scope collection).findings)
  have hkey := Draft.getElem?_defineSlot hopened
  have hext := (Draft.Extends.refl
    ({ d with arrayLoops := d.arrayLoops + 1 }.defineSlot (arrayName d.arrayLoops)
      collection.span).2).defineSlot (keyName d.arrayLoops) collection.span
  have harray := getElem?_of_prefix hext.slots
    (Draft.getElem?_defineSlot (List.prefix_nil.1 (hopened ▸ hext.findings)))
  rw [Draft.slots_enter]
  exact ⟨harray, hkey, (code_first _ _ ▸ List.suffix_append _ _).isInfix⟩

end ArraySlots

namespace Draft

/-- Unless something was reported, each of the loops has its slots. -/
def Opens (number : Nat) (loops : List ArrayLoop) (d : Draft) : Prop :=
  d.findings.toList = [] → ∃ all : List ArraySlots, all.length = loops.length ∧
    ArraySlots.AllOpened number d.slots.names.toList d.code.toList all

theorem Opens.grows {number : Nat} {loops : List ArrayLoop} {d d' : Draft}
    (h : d.Opens number loops) (hg : d.Grows d') : d'.Opens number loops := by
  intro hf
  obtain ⟨all, hlen, hall⟩ := h (List.prefix_nil.1 (hf ▸ hg.findings))
  exact ⟨all, hlen, hall.mono hg.slots hg.code⟩

theorem Runs.opens {scope : Scope} {visits : List Visit} {loops : List ArrayLoop} {d d' : Draft}
    (h : d.Runs scope visits loops d') : d'.Opens d.arrayLoops loops := by
  induction h with
  | refl => exact fun _ => ⟨[], rfl, nofun⟩
  | evaluate _ he ih => exact ih.grows (.of_evaluates he)
  | refer _ _ ih | reload _ _ ih => exact ih.grows (.of_extends (.emitWith (.refl _) _ _))
  | define name span opcode _ _ ih =>
      exact ih.grows (.of_extends (.emitWith (.defineSlot (.refl _) name span) _ _))
  | @enter _ _ _ d' item collection h ih =>
      intro hf
      obtain ⟨all, hlen, hall⟩ := ih.grows (grows_enter d' scope collection) hf
      have hopened := ArraySlots.opened_enter hf
      rw [h.arrayLoops_eq, ← hlen] at hopened
      exact ⟨all ++ [_], by simp [hlen], hall.concat hopened⟩

end Draft

/-! ## Routines -/

/-- The slots of a routine are those of the variables of a function, its parameters first. -/
structure Routine.Numbers (f : Function) (r : Routine) : Prop where
  nodup : r.locals.Nodup
  length_le : r.locals.length ≤ Slots.limit
  params_prefix : (f.params.map Located.value).eraseDups.take Slots.limit <+: r.locals
  params_eq : r.params = ((f.params.map Located.value).eraseDups.take Slots.limit).length
  head : ∃ params locals : UInt8,
    r.code.head? = some ⟨.createLocalVariables, [.byte params, .byte locals]⟩ ∧
      params.toNat = r.params ∧ locals.toNat = r.locals.length
  inUse : ∀ i ∈ r.code, i.opcode.onSlot = true →
    ∃ slot : UInt8, i.operands = [.byte slot] ∧ slot.toNat < r.locals.length

/-- The slots of a function's loops: distinct, and none is that of a name in the function. -/
structure Routine.Hides (f : Function) (r : Routine) (all : List ArraySlots) : Prop where
  length_eq : all.length = f.arrayLoops.length
  opened : ArraySlots.AllOpened 0 r.locals r.code all
  nodup : (all.flatMap fun slots => [slots.array, slots.key]).Nodup
  apart : ∀ slots ∈ all, ∀ slot ∈ [slots.array, slots.key], ∀ x,
    .name x ∈ f.mentions → r.locals[slot]? ≠ some x

/-- Slots and their number fit into a byte. -/
theorem Slots.Valid.toNat_toUInt8 {slots : Slots} (h : slots.Valid) {n : Nat}
    (hn : n ≤ slots.size) : n.toUInt8.toNat = n := by
  have hle := h.size_le
  rw [Slots.length_names, Slots.limit] at hle
  rw [Nat.toUInt8_eq, UInt8.toNat_ofNat']
  omega

namespace Function

variable (scope : Scope) (f : Function)

theorem numbers_lower : (f.lower scope).1.Numbers f := by
  have hgrows := (f.runs_draft scope).grows
  have hv := f.valid_draft scope
  have hlen : f.start.slots.size =
      ((f.params.map Located.value).eraseDups.take Slots.limit).length := by
    rw [← names_start, Slots.length_names]
  rw [lower_eq]
  refine ⟨hv.nodup, hv.size_le, names_start f ▸ hgrows.slots, hlen,
    ⟨_, _, rfl, hv.toNat_toUInt8 hgrows.size_le, ?_⟩, fun i hi hon => ?_⟩
  · rw [hv.toNat_toUInt8 (Nat.le_refl _), Draft.toRoutine, Slots.length_names]
  · rw [Draft.toRoutine, List.mem_cons] at hi
    rcases hi with rfl | hi
    · cases hon
    · obtain ⟨slot, hslot, hops⟩ := (f.fits_draft scope i (List.mem_of_mem_drop hi)).inUse hon
      refine ⟨slot.toUInt8, hops, ?_⟩
      rw [hv.toNat_toUInt8 (Nat.le_of_lt hslot), Draft.toRoutine, Slots.length_names]
      exact hslot

theorem code_lower : ∃ operands rest,
    (f.draft scope).code.toList = ⟨.createLocalVariables, []⟩ :: rest ∧
      (f.lower scope).1.code = ⟨.createLocalVariables, operands⟩ :: rest := by
  obtain ⟨rest, hrest⟩ := f.code_draft scope
  have hcode : (f.lower scope).1.code = _ :: (f.draft scope).code.toList.drop 1 := rfl
  rw [hrest, List.drop_one, List.tail_cons] at hcode
  exact ⟨_, rest, hrest, hcode⟩

theorem readsFollow_lower (h : ArrayLoop.AllSpare 0 f.arrayLoops) :
    ReadsFollow (f.lower scope).1.params (f.lower scope).1.code := by
  obtain ⟨operands, rest, hdraft, hcode⟩ := f.code_lower scope
  have hstart : (f.start.emit .createLocalVariables).Prepared f.start.slots.size := by
    refine ⟨fun slot hslot => given_of_lt hslot, ?_⟩
    rw [Draft.emit, Draft.emitWith, Array.toList_push, code_start]
    exact ReadsFollow.append (by simp [ReadsFollow]) _ (by simp)
  rw [← arrayLoops_emit_start] at h
  have hfollow := ((f.runs_draft scope).prepared hstart h).follow
  rw [hdraft] at hfollow
  rw [hcode]
  exact hfollow.of_cons operands

/-- The slots of the loops of a function whose names can be spelled. -/
theorem hides_lower (hspelled : ∀ m ∈ f.mentions, m.Spelled) (hf : (f.lower scope).2 = []) :
    ∃ all, (f.lower scope).1.Hides f all := by
  obtain ⟨operands, rest, hdraft, hcode⟩ := f.code_lower scope
  obtain ⟨all, hlen, hall⟩ := (f.runs_draft scope).opens hf
  rw [arrayLoops_emit_start, hdraft] at hall
  have hopened : ArraySlots.AllOpened 0 (f.lower scope).1.locals (f.lower scope).1.code all := by
    intro n slots hn
    obtain ⟨harray, hkey, hfirst⟩ := hall n slots hn
    refine ⟨harray, hkey, ?_⟩
    rw [hcode]
    rcases List.infix_cons_iff.1 hfirst with hfront | hrest
    · cases (List.cons_prefix_cons.1 hfront).1
    · exact hrest.trans (List.suffix_cons _ _).isInfix
  refine ⟨all, hlen, hopened, hopened.nodup, fun slots hslots slot hslot x hx hname => ?_⟩
  obtain ⟨n, hn⟩ := List.mem_iff_getElem?.1 hslots
  obtain ⟨y, hy, hslot⟩ := (hopened n slots hn).mem_names hslot
  rw [hslot, Option.some.injEq] at hname
  exact ArraySlots.not_isName_of_mem_names hy (hname ▸ hspelled _ hx)

/-- What can be spelled is no name of a loop. -/
theorem spares_of_spelled (hspelled : ∀ m ∈ f.mentions, m.Spelled) :
    ArrayLoop.AllSpare 0 f.arrayLoops := by
  intro n l hl span x hx hname
  have hm := f.mentions_of_loop (List.mem_of_getElem? hl) (Expr.mentions_of_read hx)
  exact ArraySlots.not_isName_of_mem_names hname (hspelled _ hm)

end Function

/-- Whatever is wrong with a script, its functions have distinct variables, at most as many as can
be numbered, with the parameters first, and touch no other. They read what has a value, unless a
loop goes through one of its own slots. Where the script was read from a source no loop does, and
if there is nothing wrong with it, the slots of its loops are nothing else. -/
theorem Script.locals_of_lower (name : String) (s : Script) {f : Function}
    (hf : f ∈ Script.firsts [] s.functions) :
    (f.lower s.scope).1 ∈ (s.lower name).1.routines ∧ (f.lower s.scope).1.Numbers f ∧
      (ArrayLoop.AllSpare 0 f.arrayLoops →
        ReadsFollow (f.lower s.scope).1.params (f.lower s.scope).1.code) ∧
      ∀ source, Script.parse source = .ok s →
        ArrayLoop.AllSpare 0 f.arrayLoops ∧
          ((s.lower name).2 = [] → ∃ all, (f.lower s.scope).1.Hides f all) := by
  refine ⟨?_, f.numbers_lower _, f.readsFollow_lower _, fun source hparse => ?_⟩
  · exact List.mem_map_of_mem (List.mem_map_of_mem hf)
  · have hmem := Script.mem_of_mem_firsts hf
    have hspelled : ∀ m ∈ f.mentions, m.Spelled := fun m hm =>
      Script.spelled_of_parseChars hparse m
        (List.mem_append_right _ (List.mem_flatMap.2 ⟨f, hmem, hm⟩))
    refine ⟨f.spares_of_spelled hspelled, fun hclean => ?_⟩
    exact f.hides_lower _ hspelled ((Script.lower_of_no_findings hclean).2 f hmem)

def nestedLoops : String := "f(a)\x7bforeach(v in a)foreach(w in v)a=w;\x7d"

theorem locals_of_nestedLoops :
    ∃ s f, Script.parse nestedLoops = .ok s ∧ f ∈ Script.firsts [] s.functions ∧
      (s.lower "t").2 = [] ∧ f.arrayLoops.length = 2 ∧
      (f.lower s.scope).1 ∈ (s.lower "t").1.routines ∧ (f.lower s.scope).1.Numbers f ∧
      ReadsFollow (f.lower s.scope).1.params (f.lower s.scope).1.code ∧
      ∃ all, (f.lower s.scope).1.Hides f all := by
  have hany : (Script.parse nestedLoops).toOption.any (fun s => decide ((s.lower "t").2 = [] ∧
      (Script.firsts [] s.functions).map (·.arrayLoops.length) = [2])) = true := by
    decide +kernel
  obtain ⟨s, hparse, hs⟩ := exists_ok_of_any hany
  obtain ⟨hclean, hfirsts⟩ := of_decide_eq_true hs
  obtain ⟨f, hf, hloops⟩ := List.map_eq_singleton_iff.1 hfirsts
  have hmem : f ∈ Script.firsts [] s.functions := hf ▸ List.mem_singleton_self f
  obtain ⟨hroutine, hnumbers, hfollow, hsource⟩ := Script.locals_of_lower "t" s hmem
  obtain ⟨hspares, hhides⟩ := hsource nestedLoops hparse
  exact ⟨s, f, hparse, hmem, hclean, hloops, hroutine, hnumbers, hfollow hspares, hhides hclean⟩

/-- A function that no source gives: its loop goes through the slot that it is about to fill. -/
def ownArrayLoop : Function where
  name := "f"
  nameSpan := ⟨0, 1⟩
  params := []
  body := [.foreach ⟨4, 21⟩ ⟨"v", ⟨12, 13⟩⟩ (.ident ⟨17, 18⟩ "$array0") (.block ⟨19, 21⟩ [])]
  span := ⟨0, 22⟩

theorem not_readsFollow_ownArrayLoop :
    (Script.lower "t" ⟨[], none, [ownArrayLoop]⟩).2 = [] ∧
      ∃ r ∈ (Script.lower "t" ⟨[], none, [ownArrayLoop]⟩).1.routines,
        ¬ ReadsFollow r.params r.code := by
  refine ⟨by decide +kernel, (ownArrayLoop.lower ⟨["f"]⟩).1, List.mem_cons_self, fun h => ?_⟩
  rcases h 1 0 (by decide +kernel) with hparam | ⟨opcode, -, hmem⟩
  · exact absurd hparam (by decide +kernel)
  · have htake : (ownArrayLoop.lower ⟨["f"]⟩).1.code.take 1 =
        [⟨.createLocalVariables, [.byte 0, .byte 3]⟩] := by
      decide +kernel
    rw [htake, List.mem_singleton] at hmem
    cases hmem

end Gsc
