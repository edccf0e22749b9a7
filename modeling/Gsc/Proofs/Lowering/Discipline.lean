import Gsc.Proofs.Lowering.Emission

/-! # Lowered code keeps a stack discipline

Every instruction of a lowered routine can be given the shape of the stack before it, empty in the
beginning, so that along every edge of the control flow the instruction's effect leads from one
shape to the next: no instruction lacks an operand or finds one of the wrong kind.
-/

namespace Gsc

/-! ## Effects -/

/-- What lies on the stack: a value, a reference or the marker of a call. -/
inductive StackItem where
  | value
  | reference
  | marker
  deriving DecidableEq, Repr

abbrev Shape := List StackItem

namespace Shape

def pop : List StackItem → Shape → Option Shape
  | [], s => some s
  | _ :: _, [] => none
  | item :: items, top :: s => if top = item then pop items s else none

/-- Take values off down to a marker, and the marker. -/
def popToMarker : Shape → Option Shape
  | .value :: s => popToMarker s
  | .marker :: s => some s
  | _ => none

theorem pop_append (items : List StackItem) (s : Shape) : pop items (items ++ s) = some s := by
  induction items with
  | nil => rfl
  | cons item items ih => rw [List.cons_append, pop, if_pos rfl, ih]

theorem popToMarker_replicate (n : Nat) (s : Shape) :
    popToMarker (List.replicate n .value ++ .marker :: s) = some s := by
  induction n with
  | zero => rfl
  | succ n ih => rw [List.replicate_succ, List.cons_append, popToMarker, ih]

end Shape

/-- The items that an opcode takes off and those that it puts on, from the top. -/
def Opcode.effect? : Opcode → Option (List StackItem × List StackItem)
  | getUndefined | getZero | getByte | getNegByte | getUnsignedShort | getNegUnsignedShort
  | getInteger | getFloat | getString | getIString | getLevel | getSelf | getGame | getAnim
  | getEmptyArray | getLocalFunction | getFarFunction | evalLocal => some ([], [.value])
  | evalLocalRef => some ([], [.reference])
  | getVector => some ([.value, .value, .value], [.value])
  | evalField | evalSize | boolNot | boolComplement => some ([.value], [.value])
  | evalArray | plus | minus | multiply | divide | modulus | bitOr | bitExOr | bitAnd | shiftLeft
  | shiftRight | equality | inequality | lessThan | greaterThan | lessEqual | greaterEqual =>
    some ([.value, .value], [.value])
  | evalFieldRef => some ([.value], [.reference])
  | evalArrayRef => some ([.reference, .value], [.reference])
  | setVariable => some ([.reference, .value], [])
  | inc | dec => some ([.reference], [])
  | decTop | wait => some ([.value], [])
  | preScriptCall => some ([], [.marker])
  | endOn | waitTill => some ([.value, .value], [])
  | createLocalVariables | waitTillFrameEnd | safeSetWaittillVariable | clearParams =>
    some ([], [])
  | _ => none

/-- How a call finds its arguments: how many values lie above them, the function and the object, and
whether they are counted by an operand or end at a marker. -/
structure CallForm where
  above : Nat
  counted : Bool

def Opcode.callForm? : Opcode → Option CallForm
  | callBuiltin => some ⟨0, true⟩
  | callBuiltinMethod => some ⟨1, true⟩
  | scriptLocalCall | scriptFarCall => some ⟨0, false⟩
  | scriptLocalMethodCall | scriptFarMethodCall | scriptPointerCall => some ⟨1, false⟩
  | scriptPointerMethodCall => some ⟨2, false⟩
  | scriptLocalThreadCall | scriptFarThreadCall => some ⟨0, true⟩
  | scriptLocalMethodThreadCall | scriptFarMethodThreadCall | scriptPointerThreadCall =>
    some ⟨1, true⟩
  | scriptPointerMethodThreadCall => some ⟨2, true⟩
  | _ => none

/-- The number of arguments, which is the last operand. -/
def Instruction.count? (ins : Instruction) : Option Nat :=
  match ins.operands.getLast? with
  | some (.byte n) => some n.toNat
  | _ => none

def Instruction.popCall (ins : Instruction) (form : CallForm) (s : Shape) : Option Shape :=
  (s.pop (List.replicate form.above .value)).bind fun s =>
    if form.counted then ins.count?.bind fun n => s.pop (List.replicate n .value)
    else s.popToMarker

def Instruction.target? (ins : Instruction) (r : Routine) : Option Nat :=
  match ins.operands with
  | [.label l] => r.target? l
  | _ => none

/-- The instructions that may follow the one at index `i`, each with the shape of the stack then;
`none` if an item or a target is missing. -/
def Instruction.edges (ins : Instruction) (r : Routine) (i : Nat) (s : Shape) :
    Option (List (Nat × Shape)) :=
  match ins.opcode.effect?, ins.opcode.callForm? with
  | some (pops, pushes), _ => (s.pop pops).map fun rest => [(i + 1, pushes ++ rest)]
  | none, some form => (ins.popCall form s).map fun rest => [(i + 1, .value :: rest)]
  | none, none =>
    match ins.opcode with
    | .finish => some []
    | .giveBack => (s.pop [.value]).map fun _ => []
    | .notify => ((s.pop [.value, .value]).bind Shape.popToMarker).map fun rest => [(i + 1, rest)]
    | .jump => (ins.target? r).map fun t => [(t, s)]
    | .jumpOnFalse =>
      (ins.target? r).bind fun t => (s.pop [.value]).map fun rest => [(t, rest), (i + 1, rest)]
    | .jumpOnTrueExpr | .jumpOnFalseExpr =>
      (ins.target? r).bind fun t => (s.pop [.value]).map fun rest => [(t, s), (i + 1, rest)]
    | _ => none

/-- Shapes can be given to all instructions so that every edge leads to an instruction with the
shape that it leaves. -/
def Routine.Disciplined (r : Routine) : Prop :=
  ∃ shape : Nat → Shape, shape 0 = [] ∧
    ∀ i (ins : Instruction), r.code[i]? = some ins →
      ∃ edges, ins.edges r i (shape i) = some edges ∧
        ∀ t s, (t, s) ∈ edges → t < r.code.length ∧ shape t = s

/-! ## Segments -/

/-- The instructions from `i` up to `j` keep the discipline: from shape `s` at `i` they lead to
shape `s'` at `j`, or out of the segment as `out` allows. -/
def Segment (r : Routine) (out : Nat → Shape → Prop) (i j : Nat) (s s' : Shape) : Prop :=
  i ≤ j ∧ ∃ shape : Nat → Shape, shape i = s ∧ shape j = s' ∧
    ∀ k, i ≤ k → k < j → ∃ ins edges, r.code[k]? = some ins ∧
      ins.edges r k (shape k) = some edges ∧
      ∀ t u, (t, u) ∈ edges → (i ≤ t ∧ t ≤ j ∧ shape t = u) ∨ out t u

namespace Segment

variable {r : Routine} {out out' : Nat → Shape → Prop} {i j k : Nat} {s s' s'' : Shape}

theorem refl (r : Routine) (out : Nat → Shape → Prop) (i : Nat) (s : Shape) :
    Segment r out i i s s := by
  refine ⟨Nat.le_refl i, fun _ => s, rfl, rfl, ?_⟩
  intro k hi hj
  omega

theorem trans (h : Segment r out i j s s') (h' : Segment r out j k s' s'') :
    Segment r out i k s s'' := by
  obtain ⟨hij, f, hfi, hfj, hf⟩ := h
  obtain ⟨hjk, g, hgj, hgk, hg⟩ := h'
  obtain ⟨shape, hleft, hright⟩ : ∃ shape : Nat → Shape,
      (∀ n, n ≤ j → shape n = f n) ∧ (∀ n, j ≤ n → shape n = g n) := by
    refine ⟨fun n => if n < j then f n else g n, fun n hn => ?_, fun n hn => if_neg (by omega)⟩
    by_cases hlt : n < j
    · exact if_pos hlt
    · obtain rfl : n = j := by omega
      exact (if_neg hlt).trans (hgj.trans hfj.symm)
  refine ⟨by omega, shape, by rw [hleft i hij, hfi], by rw [hright k hjk, hgk], ?_⟩
  intro n hin hnk
  by_cases hn : n < j
  · obtain ⟨ins, edges, hc, he, hall⟩ := hf n hin hn
    refine ⟨ins, edges, hc, by rw [hleft n (by omega), he], ?_⟩
    intro t u htu
    rcases hall t u htu with ⟨hit, htj, htu⟩ | hout
    · exact .inl ⟨hit, by omega, by rw [hleft t htj, htu]⟩
    · exact .inr hout
  · obtain ⟨ins, edges, hc, he, hall⟩ := hg n (by omega) hnk
    refine ⟨ins, edges, hc, by rw [hright n (by omega), he], ?_⟩
    intro t u htu
    rcases hall t u htu with ⟨hjt, htk, htu⟩ | hout
    · exact .inl ⟨by omega, htk, by rw [hright t hjt, htu]⟩
    · exact .inr hout

/-- A way out that leads to either end of the segment is none. -/
theorem close (h : Segment r out' i j s s')
    (ho : ∀ t u, out' t u → out t u ∨ (t = i ∧ u = s) ∨ (t = j ∧ u = s')) :
    Segment r out i j s s' := by
  obtain ⟨hij, f, hfi, hfj, hf⟩ := h
  refine ⟨hij, f, hfi, hfj, ?_⟩
  intro k hik hkj
  obtain ⟨ins, edges, hc, he, hall⟩ := hf k hik hkj
  refine ⟨ins, edges, hc, he, ?_⟩
  intro t u htu
  rcases hall t u htu with hin | hout
  · exact .inl hin
  · rcases ho t u hout with hout | ⟨rfl, rfl⟩ | ⟨rfl, rfl⟩
    · exact .inr hout
    · exact .inl ⟨Nat.le_refl _, hij, hfi⟩
    · exact .inl ⟨hij, Nat.le_refl _, hfj⟩

theorem mono (h : Segment r out' i j s s') (ho : ∀ t u, out' t u → out t u) :
    Segment r out i j s s' :=
  h.close fun t u hout => .inl (ho t u hout)

/-- A single instruction. -/
theorem single {ins : Instruction} {edges : List (Nat × Shape)} (hi : r.code[i]? = some ins)
    (he : ins.edges r i s = some edges)
    (hall : ∀ t u, (t, u) ∈ edges → (t = i + 1 ∧ u = s') ∨ out t u) :
    Segment r out i (i + 1) s s' := by
  refine ⟨Nat.le_succ i, fun n => if n = i then s else s', if_pos rfl, if_neg (by omega), ?_⟩
  intro k hik hki
  obtain rfl : k = i := by omega
  refine ⟨ins, edges, hi, by simp only [if_true, he], ?_⟩
  intro t u htu
  rcases hall t u htu with ⟨rfl, rfl⟩ | hout
  · exact .inl ⟨Nat.le_succ k, Nat.le_refl _, if_neg (by omega)⟩
  · exact .inr hout

/-- An instruction that only the next one follows. -/
theorem onward {ins : Instruction} (hi : r.code[i]? = some ins)
    (he : ins.edges r i s = some [(i + 1, s')]) : Segment r out i (i + 1) s s' := by
  refine single hi he ?_
  intro t u htu
  cases List.mem_singleton.1 htu
  exact .inl ⟨rfl, rfl⟩

/-- An instruction that leaves or goes on. -/
theorem fork {ins : Instruction} {t : Nat} {u : Shape} (hi : r.code[i]? = some ins)
    (he : ins.edges r i s = some [(t, u), (i + 1, s')]) (ho : out t u) :
    Segment r out i (i + 1) s s' := by
  refine single hi he ?_
  intro t' u' htu
  rcases List.mem_cons.1 htu with htu | htu
  · cases htu
    exact .inr ho
  · cases List.mem_singleton.1 htu
    exact .inl ⟨rfl, rfl⟩

/-! ### Instructions -/

theorem plain {ins : Instruction} {pops pushes : List StackItem} (hi : r.code[i]? = some ins)
    (he : ins.opcode.effect? = some (pops, pushes)) (s : Shape) :
    Segment r out i (i + 1) (pops ++ s) (pushes ++ s) := by
  have hedges : ins.edges r i (pops ++ s) = some [(i + 1, pushes ++ s)] := by
    unfold Instruction.edges
    rw [he]
    simp [Shape.pop_append]
  exact onward hi hedges

theorem call {ins : Instruction} {form : CallForm} (hi : r.code[i]? = some ins)
    (hf : ins.opcode.callForm? = some form) (he : ins.opcode.effect? = none)
    (hp : ins.popCall form s = some s') : Segment r out i (i + 1) s (.value :: s') := by
  have hedges : ins.edges r i s = some [(i + 1, .value :: s')] := by
    unfold Instruction.edges
    rw [he, hf]
    simp [hp]
  exact onward hi hedges

theorem jump {t : Nat} (h : r.JumpAt i .jump t) (ho : out t s) (s' : Shape) :
    Segment r out i (i + 1) s s' := by
  obtain ⟨l, hi, ht⟩ := h
  have hedges : Instruction.edges ⟨.jump, [.label l]⟩ r i s = some [(t, s)] := by
    change (r.target? l).map _ = _
    rw [ht]
    rfl
  refine single hi hedges ?_
  intro t' u htu
  cases List.mem_singleton.1 htu
  exact .inr ho

theorem jumpOnFalse {t : Nat} (h : r.JumpAt i .jumpOnFalse t) (ho : out t s) :
    Segment r out i (i + 1) (.value :: s) s := by
  obtain ⟨l, hi, ht⟩ := h
  have hedges : Instruction.edges ⟨.jumpOnFalse, [.label l]⟩ r i (.value :: s) =
      some [(t, s), (i + 1, s)] := by
    change (r.target? l).bind _ = _
    rw [ht]
    rfl
  exact fork hi hedges ho

/-- A jump that keeps the value when it is taken. -/
theorem jumpKeeping {t : Nat} {opcode : Opcode} (h : r.JumpAt i opcode t)
    (hop : opcode = .jumpOnTrueExpr ∨ opcode = .jumpOnFalseExpr) (ho : out t (.value :: s)) :
    Segment r out i (i + 1) (.value :: s) s := by
  obtain ⟨l, hi, ht⟩ := h
  have hedges : Instruction.edges ⟨opcode, [.label l]⟩ r i (.value :: s) =
      some [(t, .value :: s), (i + 1, s)] := by
    rcases hop with rfl | rfl
    all_goals
      change (r.target? l).bind _ = _
      rw [ht]
      rfl
  exact fork hi hedges ho

theorem notify (hi : r.code[i]? = some ⟨.notify, []⟩) (n : Nat) (s : Shape) :
    Segment r out i (i + 1) (.value :: .value :: (List.replicate n .value ++ .marker :: s)) s := by
  have hedges : Instruction.edges ⟨.notify, []⟩ r i
      (.value :: .value :: (List.replicate n .value ++ .marker :: s)) = some [(i + 1, s)] := by
    change (Shape.popToMarker _).map _ = _
    rw [Shape.popToMarker_replicate]
    rfl
  exact onward hi hedges

/-- An instruction that nothing follows. -/
theorem stop {ins : Instruction} (hi : r.code[i]? = some ins) (he : ins.edges r i s = some [])
    (s' : Shape) : Segment r out i (i + 1) s s' := by
  refine single hi he ?_
  intro t u htu
  cases htu

end Segment

/-! ## Expressions -/

theorem Instruction.effect?_of_constant? {ins : Instruction} {n : Int}
    (h : ins.constant? = some n) : ins.opcode.effect? = some ([], [.value]) := by
  cases pushes_of_constant? h <;> rfl

theorem Expr.effect?_of_atom? {e : Expr} {ins : Instruction} (h : e.atom? = some ins) :
    ins.opcode.effect? = some ([], [.value]) := by
  unfold atom? at h
  split at h
  case h_15 => cases h
  all_goals
    cases h
    rfl

theorem BinaryOp.effect?_of_opcode? {op : BinaryOp} {opcode : Opcode}
    (h : op.opcode? = some opcode) : opcode.effect? = some ([.value, .value], [.value]) := by
  cases op <;> cases h <;> rfl

def Callee.isPointer : Callee → Bool
  | .pointer _ => true
  | _ => false

/-- The instruction of a call fits what is pushed for it. -/
structure CallPlan.Fits (plan : CallPlan) (pointer onObject : Bool) (count : UInt8) : Prop where
  effect : plan.opcode.effect? = none
  form : plan.opcode.callForm? = some ⟨pointer.toNat + onObject.toNat, !plan.marker⟩
  count : plan.marker = false →
    Instruction.count? ⟨plan.opcode, plan.operands⟩ = some count.toNat

theorem CallPlan.fits_script {pointer onObject thread : Bool} {count : UInt8}
    {operands : List Operand} {opcode : Opcode} (he : opcode.effect? = none)
    (hf : opcode.callForm? = some ⟨pointer.toNat + onObject.toNat, thread⟩) :
    (script thread count opcode operands).Fits pointer onObject count := by
  refine ⟨he, ?_, fun hm => ?_⟩
  · rw [script, Bool.not_not]
    exact hf
  · have ht : thread = true := by simpa [script] using hm
    simp [script, ht, Instruction.count?]

theorem CallPlan.fits_of_make {scope : Scope} {onObject thread : Bool} {count : UInt8}
    {callee : Callee} {plan : CallPlan}
    (h : CallPlan.make scope onObject thread count callee = .ok plan) :
    plan.Fits callee.isPointer onObject count := by
  cases callee with
  | named name =>
      simp only [CallPlan.make] at h
      split at h
      · cases h
        cases thread <;> cases onObject <;> exact fits_script rfl rfl
      · split at h
        · cases h
        · split at h
          · cases h
          · cases h
            cases onObject <;> exact ⟨rfl, rfl, fun _ => rfl⟩
  | far path name =>
      cases h
      cases thread <;> cases onObject <;> exact fits_script rfl rfl
  | pointer e =>
      cases h
      cases thread <;> cases onObject <;> exact fits_script rfl rfl

/-- The shape when a marker, arguments, an object and a function value have been pushed. -/
def callShape (marker : Bool) (args : Nat) (onObject pointer : Bool) (s : Shape) : Shape :=
  List.replicate pointer.toNat .value ++ (List.replicate onObject.toNat .value ++
    (List.replicate args .value ++ (List.replicate marker.toNat .marker ++ s)))

theorem CallPlan.Fits.popCall {plan : CallPlan} {pointer onObject : Bool} {args : Nat}
    (h : plan.Fits pointer onObject args.toUInt8) (hargs : args ≤ argumentLimit) (s : Shape) :
    Instruction.popCall ⟨plan.opcode, plan.operands⟩
      ⟨pointer.toNat + onObject.toNat, !plan.marker⟩
      (callShape plan.marker args onObject pointer s) = some s := by
  unfold Instruction.popCall callShape
  rw [← List.append_assoc, List.replicate_append_replicate, Shape.pop_append, Option.bind_some]
  cases hm : plan.marker with
  | true => exact Shape.popToMarker_replicate args s
  | false =>
      have hcount : args.toUInt8.toNat = args := by
        rw [argumentLimit] at hargs
        rw [Nat.toUInt8_eq, UInt8.toNat_ofNat', Nat.mod_eq_of_lt (by omega)]
      rw [h.count hm, hcount]
      exact Shape.pop_append _ s

section Expressions

variable {scope : Scope} {r : Routine} {out : Nat → Shape → Prop}

theorem Segment.marker {plan : CallPlan} {i j : Nat} (h : plan.MarkerAt r i j) (s : Shape) :
    Segment r out i j s (List.replicate plan.marker.toNat .marker ++ s) := by
  unfold CallPlan.MarkerAt at h
  split at h
  · rename_i hm
    obtain ⟨hi, rfl⟩ := h
    rw [hm]
    exact .plain hi rfl s
  · rename_i hm
    subst h
    rw [Bool.not_eq_true] at hm
    rw [hm]
    exact .refl r out _ s

/-- The code of both operands of an operator that may skip the second one. -/
theorem Segment.shortCircuit {i j k : Nat} {opcode : Opcode} {s : Shape}
    (hop : opcode = .jumpOnTrueExpr ∨ opcode = .jumpOnFalseExpr)
    (hleft : ∀ out, Segment r out i j s (.value :: s)) (hj : r.JumpAt j opcode k)
    (hright : ∀ out, Segment r out (j + 1) k s (.value :: s)) :
    Segment r out i k s (.value :: s) := by
  have h := ((hleft fun t u => out t u ∨ (t = k ∧ u = .value :: s)).trans
    (.jumpKeeping hj hop (.inr ⟨rfl, rfl⟩))).trans (hright _)
  refine h.close ?_
  rintro t u (hout | hend)
  · exact .inl hout
  · exact .inr (.inr hend)

/-- The code of a branch that may be skipped. -/
theorem Segment.branch {i j k : Nat} {s : Shape}
    (hcond : ∀ out, Segment r out i j s (.value :: s)) (hj : r.JumpAt j .jumpOnFalse k)
    (hyes : Segment r out (j + 1) k s s) : Segment r out i k s s := by
  have h := ((hcond fun t u => out t u ∨ (t = k ∧ u = s)).trans
    (.jumpOnFalse hj (.inr ⟨rfl, rfl⟩))).trans (hyes.mono fun _ _ => .inl)
  refine h.close ?_
  rintro t u (hout | hend)
  · exact .inl hout
  · exact .inr (.inr hend)

/-- The code of a choice: the first branch jumps over the second one. -/
theorem Segment.choice {i j k l : Nat} {s s' : Shape}
    (hcond : ∀ out, Segment r out i j s (.value :: s)) (hj : r.JumpAt j .jumpOnFalse (k + 1))
    (hyes : Segment r out (j + 1) k s s') (hjy : r.JumpAt k .jump l)
    (hno : Segment r out (k + 1) l s s') : Segment r out i l s s' := by
  have h := ((hcond fun t u => out t u ∨ (t = l ∧ u = s') ∨ (t = k + 1 ∧ u = s)).trans
    (.jumpOnFalse hj (.inr (.inr ⟨rfl, rfl⟩)))).trans (hyes.mono fun _ _ => .inl)
  have hfront : Segment r (fun t u => out t u ∨ (t = l ∧ u = s')) i (k + 1) s s := by
    refine (h.trans (.jump hjy (.inr (.inl ⟨rfl, rfl⟩)) s)).close ?_
    rintro t u (hout | hend | hnext)
    · exact .inl (.inl hout)
    · exact .inl (.inr hend)
    · exact .inr (.inr hnext)
  refine (hfront.trans (hno.mono fun _ _ => .inl)).close ?_
  rintro t u (hout | hend)
  · exact .inl hout
  · exact .inr (.inr hend)

mutual

/-- The code of an expression pushes one value, whatever lies below. -/
theorem Expr.segment_of_codeAt (e : Expr) {i j : Nat} (h : e.CodeAt scope r i j)
    (out : Nat → Shape → Prop) (s : Shape) : Segment r out i j s (.value :: s) := by
  match e with
  | .int .. =>
      cases h with
      | int hc hi => exact .plain hi (Instruction.effect?_of_constant? hc) s
      | atom ha hi => exact .plain hi (Expr.effect?_of_atom? ha) s
  | .float .. | .text .. | .localized .. | .undefined _ | .bool .. | .level _ | .self _
  | .game _ | .anim _ | .emptyArray _ | .functionRef .. =>
      cases h with
      | atom ha hi => exact .plain hi (Expr.effect?_of_atom? ha) s
  | .vector _ x y z =>
      cases h with
      | vector hx hy hz hi =>
          have hxy := (x.segment_of_codeAt hx out s).trans (y.segment_of_codeAt hy out _)
          exact (hxy.trans (z.segment_of_codeAt hz out _)).trans (.plain hi rfl s)
      | atom ha hi => cases ha
  | .ident _ _ =>
      cases h with
      | ident hs =>
          obtain ⟨slot, hi, -⟩ := hs
          exact .plain hi rfl s
      | atom ha hi => cases ha
  | .field _ base _ =>
      cases h with
      | size hb hi => exact (base.segment_of_codeAt hb out s).trans (.plain hi rfl s)
      | field hb hi => exact (base.segment_of_codeAt hb out s).trans (.plain hi rfl s)
      | atom ha hi => cases ha
  | .index _ base e =>
      cases h with
      | index he hb hi =>
          have hboth := (e.segment_of_codeAt he out s).trans (base.segment_of_codeAt hb out _)
          exact hboth.trans (.plain hi rfl s)
      | atom ha hi => cases ha
  | .call _ object thread callee args =>
      cases h with
      | call hlimit hplan hm ha ho ht hi =>
          have hfits := CallPlan.fits_of_make hplan
          have hargs := (Segment.marker hm s).trans (segment_of_argsAt args ha out _)
          have hobject := hargs.trans (segment_of_objectAt object ho out _)
          have htarget := hobject.trans (callee.segment_of_targetAt ht out _)
          exact htarget.trans (.call hi hfits.form hfits.effect (hfits.popCall hlimit s))
      | atom ha hi => cases ha
  | .unary _ .neg e =>
      cases h with
      | negInt hc hi => exact .plain hi (Instruction.effect?_of_constant? hc) s
      | neg hz he hi =>
          have hboth := (Segment.plain hz rfl s).trans (e.segment_of_codeAt he out _)
          exact hboth.trans (.plain hi rfl s)
      | atom ha hi => exact .plain hi (Expr.effect?_of_atom? ha) s
  | .unary _ .not e =>
      cases h with
      | not he hi => exact (e.segment_of_codeAt he out s).trans (.plain hi rfl s)
      | atom ha hi => cases ha
  | .unary _ .bitNot e =>
      cases h with
      | bitNot he hi => exact (e.segment_of_codeAt he out s).trans (.plain hi rfl s)
      | atom ha hi => cases ha
  | .binary _ left op right =>
      cases h with
      | and hl hj hr =>
          exact .shortCircuit (.inr rfl) (fun out => left.segment_of_codeAt hl out s) hj
            (fun out => right.segment_of_codeAt hr out s)
      | or hl hj hr =>
          exact .shortCircuit (.inl rfl) (fun out => left.segment_of_codeAt hl out s) hj
            (fun out => right.segment_of_codeAt hr out s)
      | binary hop hl hr hi =>
          have hboth := (left.segment_of_codeAt hl out s).trans (right.segment_of_codeAt hr out _)
          exact hboth.trans (.plain hi (BinaryOp.effect?_of_opcode? hop) s)
      | atom ha hi => cases ha
  | .ternary _ condition yes no =>
      cases h with
      | ternary hc hj hy hjy hn =>
          exact .choice (fun out => condition.segment_of_codeAt hc out s) hj
            (yes.segment_of_codeAt hy out s) hjy (no.segment_of_codeAt hn out s)
      | atom ha hi => cases ha

theorem Callee.segment_of_targetAt (callee : Callee) {i j : Nat}
    (h : callee.TargetAt scope r i j) (out : Nat → Shape → Prop) (s : Shape) :
    Segment r out i j s (List.replicate callee.isPointer.toNat .value ++ s) := by
  match callee with
  | .named _ =>
      cases h with
      | named => exact .refl r out _ s
  | .far _ _ =>
      cases h with
      | far => exact .refl r out _ s
  | .pointer e =>
      cases h with
      | pointer he => exact e.segment_of_codeAt he out s

theorem segment_of_objectAt (object : Option Expr) {i j : Nat} (h : ObjectAt scope r object i j)
    (out : Nat → Shape → Prop) (s : Shape) :
    Segment r out i j s (List.replicate object.isSome.toNat .value ++ s) := by
  match object with
  | none =>
      cases h with
      | none => exact .refl r out _ s
  | some e =>
      cases h with
      | some he => exact e.segment_of_codeAt he out s

theorem segment_of_argsAt (args : List Expr) {i j : Nat} (h : ArgsAt scope r args i j)
    (out : Nat → Shape → Prop) (s : Shape) :
    Segment r out i j s (List.replicate args.length .value ++ s) := by
  match args with
  | [] =>
      cases h with
      | nil => exact .refl r out _ s
  | e :: rest =>
      cases h with
      | cons hrest he =>
          exact (segment_of_argsAt rest hrest out s).trans (e.segment_of_codeAt he out _)

end

end Expressions

/-! ## Statements -/

section Statements

variable {scope : Scope} {r : Routine} {out : Nat → Shape → Prop} {i j : Nat} {s : Shape}

theorem Segment.slot {opcode : Opcode} {name : String} {pops pushes : List StackItem}
    (h : r.SlotAt i opcode name) (he : opcode.effect? = some (pops, pushes)) :
    Segment r out i (i + 1) (pops ++ s) (pushes ++ s) := by
  obtain ⟨slot, hi, -⟩ := h
  exact .plain hi he s

theorem Segment.pushSlot {name : String} (h : r.SlotAt i .evalLocal name) (s : Shape) :
    Segment r out i (i + 1) s (.value :: s) :=
  .slot h rfl

theorem Segment.store {name : String} (h : r.StoreAt i name) :
    Segment r out i (i + 2) (.value :: s) s :=
  (Segment.slot h.1 rfl).trans (.plain h.2 rfl s)

theorem Expr.segment_of_refAt {e : Expr} (h : e.RefAt scope r i j) (s : Shape) :
    Segment r out i j s (.reference :: s) := by
  induction h generalizing s with
  | ident hs => exact .slot hs rfl
  | field hb hi => exact (Expr.segment_of_codeAt _ hb out s).trans (.plain hi rfl s)
  | index he hb hi ih =>
      exact ((Expr.segment_of_codeAt _ he out s).trans (ih _)).trans (.plain hi rfl s)

theorem segment_of_receiveAt {targets : List (Located String)} (h : ReceiveAt r targets i j)
    (s : Shape) : Segment r out i j s s := by
  induction h with
  | nil => exact .refl r out _ s
  | cons hs hrest ih => exact (Segment.slot hs rfl).trans ih

/-- The ways that statements have out of their code, inside a loop or not. -/
def exits (loop : Option LoopTargets) (t : Nat) (u : Shape) : Prop :=
  u = [] ∧ ∃ targets, loop = some targets ∧ (t = targets.breakTo ∨ t = targets.continueTo)

theorem segment_of_guardAt {exit : Nat} {condition : Option Expr}
    (h : GuardAt scope r exit condition i j) (ho : out exit []) : Segment r out i j [] [] := by
  cases h with
  | none | always => exact .refl r out _ []
  | test he hj => exact (Expr.segment_of_codeAt _ he out []).trans (.jumpOnFalse hj ho)

/-- A loop from index `a`: the test leads to the body at `b` or out behind the loop, the body ends
at `m` and the step at `c`, from where the loop goes back. -/
theorem Segment.loop {outer : Option LoopTargets} {a b m c next : Nat}
    (htest : ∀ out : Nat → Shape → Prop, out (c + 1) [] → Segment r out a b [] [])
    (hbody : Segment r (exits (some ⟨c + 1, next⟩)) b m [] [])
    (hstep : Segment r (exits outer) m c [] []) (hjump : r.JumpAt c .jump a)
    (hnext : next = m ∨ next = a) : Segment r (exits outer) a (c + 1) [] [] := by
  let inner (t : Nat) (u : Shape) : Prop := exits outer t u ∨ (u = [] ∧ (t = c + 1 ∨ t = a))
  have hb : Segment r inner b m [] [] := by
    refine hbody.close ?_
    rintro t u ⟨rfl, targets, htargets, ht⟩
    cases htargets
    rcases ht with rfl | rfl
    · exact .inl (.inr ⟨rfl, .inl rfl⟩)
    · rcases hnext with hm | ha
      · exact .inr (.inr ⟨hm, rfl⟩)
      · exact .inl (.inr ⟨rfl, .inr ha⟩)
  have hround := ((htest inner (.inr ⟨rfl, .inl rfl⟩)).trans hb).trans
    (hstep.mono fun _ _ hout => .inl hout)
  refine (hround.trans (.jump hjump (.inr ⟨rfl, .inr rfl⟩) [])).close ?_
  rintro t u (hout | ⟨rfl, rfl | rfl⟩)
  · exact .inl hout
  · exact .inr (.inr ⟨rfl, rfl⟩)
  · exact .inr (.inl ⟨rfl, rfl⟩)

/-- A call of a builtin function with its arguments on the stack. -/
theorem Segment.builtin {name : String} {count : UInt8}
    (hi : r.code[i]? = some ⟨.callBuiltin, [.text name, .byte count]⟩) :
    Segment r out i (i + 1) (List.replicate count.toNat .value ++ s) (.value :: s) :=
  .call hi rfl rfl (Shape.pop_append _ s)

theorem segment_of_firstAt {array key : String} (h : FirstAt r array key i) :
    Segment r out i (i + 6) [.value] [] :=
  (((Segment.store h.keepArray).trans (.pushSlot h.pushArray _)).trans (.builtin h.call)).trans
    (.store h.keepKey)

theorem segment_of_elementAt {array key : String} {exit : Nat} (h : ElementAt r array key exit i)
    (ho : out exit []) : Segment r out i (i + 6) [] [.value] := by
  have htest : Segment r out i (i + 3) [] [] :=
    ((Segment.pushSlot h.testKey _).trans (.builtin h.call)).trans (.jumpOnFalse h.leave ho)
  exact ((htest.trans (.pushSlot h.pushKey _)).trans (.pushSlot h.pushArray _)).trans
    (.plain h.element rfl [])

theorem segment_of_advanceAt {array key : String} (h : AdvanceAt r array key i) :
    Segment r out i (i + 5) [] [] :=
  (((Segment.pushSlot h.pushKey _).trans (.pushSlot h.pushArray _)).trans (.builtin h.call)).trans
    (.store h.keepKey)

mutual

/-- The code of a statement starts and ends with an empty stack, and so do the ways out of it. -/
theorem Stmt.segment_of_codeAt (stmt : Stmt) {loop : Option LoopTargets} {i j : Nat}
    (h : stmt.CodeAt scope r loop i j) : Segment r (exits loop) i j [] [] := by
  match stmt with
  | .block _ body =>
      cases h with
      | block hb => exact segment_of_bodyAt body hb
  | .ifElse _ e yes none =>
      cases h with
      | ifThen he hj hy =>
          exact .branch (fun out => e.segment_of_codeAt he out []) hj (yes.segment_of_codeAt hy)
  | .ifElse _ e yes (some no) =>
      cases h with
      | ifElse he hj hy hjy hn =>
          exact .choice (fun out => e.segment_of_codeAt he out []) hj (yes.segment_of_codeAt hy) hjy
            (no.segment_of_codeAt hn)
  | .whileLoop _ e body =>
      cases h with
      | whileLoop hg hb hj =>
          exact .loop (fun out ho => segment_of_guardAt hg ho) (body.segment_of_codeAt hb)
            (.refl r _ _ []) hj (.inr rfl)
  | .forLoop _ init e step body =>
      cases h with
      | forLoop hi hg hb hs hj =>
          exact (segment_of_clauseAt init hi).trans
            (.loop (fun out ho => segment_of_guardAt hg ho) (body.segment_of_codeAt hb)
              (segment_of_clauseAt step hs) hj (.inl rfl))
  | .foreach _ item e body =>
      cases h with
      | foreach he hf hel hst hb ha hj =>
          have hinit := (e.segment_of_codeAt he (exits loop) []).trans (segment_of_firstAt hf)
          exact hinit.trans (.loop
            (fun out ho => (segment_of_elementAt hel ho).trans (.store hst))
            (body.segment_of_codeAt hb) (segment_of_advanceAt ha) hj (.inl rfl))
  | .ret _ none =>
      cases h with
      | finish hi => exact .stop hi rfl []
  | .ret _ (some e) =>
      cases h with
      | giveBack he hi => exact (e.segment_of_codeAt he (exits loop) []).trans (.stop hi rfl [])
  | .wait _ e =>
      cases h with
      | wait he hi => exact (e.segment_of_codeAt he (exits loop) []).trans (.plain hi rfl [])
  | .waitFrame _ =>
      cases h with
      | waitFrame hi => exact .plain hi rfl []
  | .breakLoop _ =>
      cases h with
      | breakLoop hj => exact .jump hj ⟨rfl, _, rfl, .inl rfl⟩ []
  | .continueLoop _ =>
      cases h with
      | continueLoop hj => exact .jump hj ⟨rfl, _, rfl, .inr rfl⟩ []
  | .waitTill _ object event targets =>
      cases h with
      | waitTill he ho hi hr hc =>
          have hboth := (event.segment_of_codeAt he (exits loop) []).trans
            (object.segment_of_codeAt ho _ _)
          exact ((hboth.trans (.plain hi rfl [])).trans (segment_of_receiveAt hr [])).trans
            (.plain hc rfl [])
  | .notify _ object event args =>
      cases h with
      | notify hi ha he ho hn =>
          have hargs := (Segment.plain hi rfl []).trans (segment_of_argsAt args ha (exits loop) _)
          have hevent := hargs.trans (event.segment_of_codeAt he _ _)
          exact (hevent.trans (object.segment_of_codeAt ho _ _)).trans (.notify hn _ [])
  | .endOn _ object event =>
      cases h with
      | endOn he ho hi =>
          have hboth := (event.segment_of_codeAt he (exits loop) []).trans
            (object.segment_of_codeAt ho _ _)
          exact hboth.trans (.plain hi rfl [])
  | .assign _ target .assign value =>
      cases h with
      | assign hv ht hi =>
          exact ((value.segment_of_codeAt hv (exits loop) []).trans
            (Expr.segment_of_refAt ht _)).trans (.plain hi rfl [])
  | .assign _ target (.compound op) value =>
      cases h with
      | compound hop ht hv hi href hset =>
          have hboth := (target.segment_of_codeAt ht (exits loop) []).trans
            (value.segment_of_codeAt hv _ _)
          have hop := hboth.trans (.plain hi (BinaryOp.effect?_of_opcode? hop) [])
          exact (hop.trans (Expr.segment_of_refAt href _)).trans (.plain hset rfl [])
  | .incDec _ target increment =>
      cases h with
      | incDec href hi =>
          cases increment with
          | true => exact (Expr.segment_of_refAt href []).trans (.plain hi rfl [])
          | false => exact (Expr.segment_of_refAt href []).trans (.plain hi rfl [])
  | .expr _ e =>
      cases h with
      | expr he hi => exact (e.segment_of_codeAt he (exits loop) []).trans (.plain hi rfl [])
  | .empty _ =>
      cases h with
      | empty => exact .refl r _ _ []

theorem segment_of_bodyAt (body : List Stmt) {loop : Option LoopTargets} {i j : Nat}
    (h : BodyAt scope r loop body i j) : Segment r (exits loop) i j [] [] := by
  match body with
  | [] =>
      cases h with
      | nil => exact .refl r _ _ []
  | stmt :: rest =>
      cases h with
      | cons hs hrest => exact (stmt.segment_of_codeAt hs).trans (segment_of_bodyAt rest hrest)

theorem segment_of_clauseAt (clause : Option Stmt) {loop : Option LoopTargets} {i j : Nat}
    (h : ClauseAt scope r loop clause i j) : Segment r (exits loop) i j [] [] := by
  match clause with
  | none =>
      cases h with
      | none => exact .refl r _ _ []
  | some stmt =>
      cases h with
      | some hs => exact stmt.segment_of_codeAt hs

end

end Statements

/-! ## Scripts -/

theorem Routine.CodeOf.disciplined {r : Routine} {scope : Scope} {f : Function} {last : Nat}
    (h : r.CodeOf scope f last) : r.Disciplined := by
  obtain ⟨params, hentry⟩ := h.entry
  obtain ⟨-, shape, hfirst, hlast, hall⟩ :=
    (Segment.plain hentry rfl []).trans (segment_of_bodyAt f.body h.body)
  refine ⟨shape, hfirst, ?_⟩
  intro i ins hi
  have hlt := (List.getElem?_eq_some_iff.1 hi).1
  have hlength := h.length
  by_cases hend : i < last
  · obtain ⟨ins', edges, hi', he, hedges⟩ := hall i (Nat.zero_le i) hend
    cases hi.symm.trans hi'
    refine ⟨edges, he, ?_⟩
    intro t s hts
    rcases hedges t s hts with ⟨-, ht, hs⟩ | ⟨-, targets, hnone, -⟩
    · exact ⟨by omega, hs⟩
    · cases hnone
  · obtain rfl : i = last := by omega
    cases hi.symm.trans h.finish
    refine ⟨[], rfl, ?_⟩
    intro t s hts
    cases hts

theorem Program.disciplined_of_lower {name : String} {s : Script} {p : Program}
    (h : s.lower name = (p, [])) : ∀ r ∈ p.routines, r.Disciplined := by
  have hfindings : (s.lower name).2 = [] := by rw [h]
  obtain ⟨hroutines, hclean⟩ := Script.lower_of_no_findings hfindings
  rw [h] at hroutines
  intro r hr
  rw [hroutines] at hr
  obtain ⟨f, hf, rfl⟩ := List.mem_map.1 hr
  obtain ⟨last, hc⟩ := Function.codeOf_lower (hclean f hf)
  exact hc.disciplined

/-- Every routine of a script without findings keeps the stack discipline. -/
theorem Script.disciplined_of_mem_lower (name : String) (s : Script)
    (h : (s.lower name).2 = []) : ∀ r ∈ (s.lower name).1.routines, r.Disciplined :=
  Program.disciplined_of_lower (Prod.ext rfl h)

/-- Calls of every kind, references, a loop over an array and waiting. -/
def callsOfEveryKind : Script :=
  let at₀ : Span := ⟨0, 0⟩
  let var (name : String) : Expr := .ident at₀ name
  let call (object : Option Expr) (thread : Bool) (callee : Callee) (args : List Expr) : Stmt :=
    .expr at₀ (.call at₀ object thread callee args)
  { includes := []
    animtree := none
    functions :=
      [{ name := "main"
         nameSpan := at₀
         params := [⟨"a", at₀⟩]
         body :=
           [call none false (.named "main") [var "a", .self at₀],
             call (some (.self at₀)) true (.named "main") [var "a"],
             call none true (.far "maps/mp/_utility" "init") [],
             call (some (.level at₀)) false (.pointer (var "a")) [.undefined at₀],
             call none true (.pointer (var "a")) [.emptyArray at₀, .anim at₀],
             call (some (var "a")) false (.named "suicide") [],
             .assign at₀ (.field at₀ (.index at₀ (var "a") (.int at₀ 1)) "b") .assign
               (.vector at₀ (.int at₀ 1) (.int at₀ (-2)) (.field at₀ (var "a") "size")),
             .foreach at₀ ⟨"x", at₀⟩ (var "a")
               (.ifElse at₀ (.binary at₀ (var "x") .and (.bool at₀ true)) (.breakLoop at₀)
                 (some (.continueLoop at₀))),
             .waitTill at₀ (.level at₀) (.text at₀ "go") [⟨"who", at₀⟩],
             .notify at₀ (.level at₀) (.text at₀ "go") [var "who", var "a"],
             .ret at₀ (some (.ternary at₀ (var "who") (.int at₀ 0) (.functionRef at₀ none "main")))]
         span := at₀ }] }

theorem disciplined_callsOfEveryKind :
    (callsOfEveryKind.lower "calls").2 = [] ∧
      ∀ r ∈ (callsOfEveryKind.lower "calls").1.routines, r.Disciplined := by
  have h : (callsOfEveryKind.lower "calls").2 = [] := by decide +kernel
  exact ⟨h, callsOfEveryKind.disciplined_of_mem_lower "calls" h⟩

end Gsc
