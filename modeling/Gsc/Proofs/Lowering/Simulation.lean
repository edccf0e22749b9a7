import Gsc.Proofs.Lowering.Emission
import Gsc.Proofs.Lowering.Machine

/-! # Lowering preserves meaning

The machine follows a statement through its code: it gets to where the statement's end leads, with
the store that the statement leaves behind, or it is still running when the statement has run out of
fuel. A function therefore ends with a result and a store if and only if the machine, started at the
first instruction of its routine, ends with the same.
-/

namespace Gsc

universe u

open Machine

variable {V : Type u} {I : Interpretation V} {r : Routine} {scope : Scope}

/-! ## Slots -/

def Routine.slotsOf (r : Routine) (σ : Store V) : List V := r.locals.map σ

def Routine.Agree (r : Routine) (σ σ' : Store V) : Prop :=
  ∀ name, name ∉ r.locals → σ' name = σ name

theorem Routine.Agree.refl (r : Routine) (σ : Store V) : r.Agree σ σ := fun _ _ => rfl

theorem Routine.Agree.trans {σ σ' σ'' : Store V} (h : r.Agree σ σ') (h' : r.Agree σ' σ'') :
    r.Agree σ σ'' :=
  fun name hn => (h' name hn).trans (h name hn)

theorem Routine.agree_set {σ : Store V} {name : String} {slot : Nat} {v : V}
    (h : r.locals[slot]? = some name) : r.Agree σ (σ.set name v) := by
  intro other hn
  have hne : other ≠ name := by
    intro heq
    exact hn (heq ▸ List.mem_of_getElem? h)
  rw [Store.set, if_neg hne]

theorem Routine.getElem?_slotsOf {σ : Store V} {name : String} {slot : Nat}
    (h : r.locals[slot]? = some name) : (r.slotsOf σ)[slot]? = some (σ name) := by
  rw [slotsOf, List.getElem?_map, h]
  rfl

theorem Routine.slotsOf_set (hn : r.locals.Nodup) {σ : Store V} {name : String} {slot : Nat} {v : V}
    (h : r.locals[slot]? = some name) :
    (r.slotsOf σ).set slot v = r.slotsOf (σ.set name v) := by
  apply List.ext_getElem?
  intro k
  obtain ⟨hslot, hname⟩ := List.getElem?_eq_some_iff.1 h
  rw [List.getElem?_set, slotsOf, slotsOf, List.getElem?_map, List.length_map, if_pos hslot,
    List.getElem?_map]
  by_cases hk : slot = k
  · subst hk
    rw [if_pos rfl, h]
    simp [Store.set]
  · rw [if_neg hk]
    cases hother : r.locals[k]? with
    | none => rfl
    | some other =>
        obtain ⟨hklt, hkname⟩ := List.getElem?_eq_some_iff.1 hother
        have hne : other ≠ name := by
          intro heq
          apply hk
          exact (List.getElem_inj hn).1 (hname.trans (heq.symm.trans hkname.symm))
        simp [Store.set, hne]

/-! ## Instructions -/

section Instructions

variable {i t : Nat} {stack : List (Cell V)} {slots : List V} {σ : Store V}

theorem reaches_constant {ins : Instruction} {n : Int} (hc : ins.constant? = some n)
    (hi : r.code[i]? = some ins) :
    Reaches I r 1 ⟨i, stack, slots⟩ ⟨i + 1, .value (I.int n) :: stack, slots⟩ := by
  apply reaches_of_step
  rw [step_eq hi]
  unfold execute
  rw [hc]
  rfl

theorem reaches_binary {op : BinaryOp} {opcode : Opcode} (hop : op.opcode? = some opcode)
    (hi : r.code[i]? = some ⟨opcode, []⟩) (a b : V) :
    Reaches I r 1 ⟨i, .value b :: .value a :: stack, slots⟩
      ⟨i + 1, .value (I.binary op a b) :: stack, slots⟩ := by
  apply reaches_of_step
  rw [step_eq hi]
  cases op <;> cases hop <;> rfl

theorem reaches_jump (h : r.JumpAt i .jump t) :
    Reaches I r 1 ⟨i, stack, slots⟩ ⟨t, stack, slots⟩ := by
  obtain ⟨l, hi, ht⟩ := h
  apply reaches_of_step
  rw [step_eq hi]
  change State.goto r _ l stack = _
  rw [State.goto, ht]
  rfl

theorem reaches_jumpOnFalse (h : r.JumpAt i .jumpOnFalse t) (v : V) :
    Reaches I r 1 ⟨i, .value v :: stack, slots⟩
      ⟨if I.truth v then i + 1 else t, stack, slots⟩ := by
  obtain ⟨l, hi, ht⟩ := h
  apply reaches_of_step
  rw [step_eq hi]
  change (if I.truth v then State.next _ stack else State.goto r _ l stack) = _
  rw [State.goto, ht]
  split <;> rfl

theorem reaches_jumpOnFalseExpr (h : r.JumpAt i .jumpOnFalseExpr t) (v : V) :
    Reaches I r 1 ⟨i, .value v :: stack, slots⟩
      (if I.truth v then ⟨i + 1, stack, slots⟩ else ⟨t, .value v :: stack, slots⟩) := by
  obtain ⟨l, hi, ht⟩ := h
  apply reaches_of_step
  rw [step_eq hi]
  change (if I.truth v then State.next _ stack else State.goto r _ l (.value v :: stack)) = _
  rw [State.goto, ht]
  split <;> rfl

theorem reaches_jumpOnTrueExpr (h : r.JumpAt i .jumpOnTrueExpr t) (v : V) :
    Reaches I r 1 ⟨i, .value v :: stack, slots⟩
      (if I.truth v then ⟨t, .value v :: stack, slots⟩ else ⟨i + 1, stack, slots⟩) := by
  obtain ⟨l, hi, ht⟩ := h
  apply reaches_of_step
  rw [step_eq hi]
  change (if I.truth v then State.goto r _ l (.value v :: stack) else State.next _ stack) = _
  rw [State.goto, ht]
  split <;> rfl

theorem reaches_evalLocal {name : String} (h : r.SlotAt i .evalLocal name) :
    Reaches I r 1 ⟨i, stack, r.slotsOf σ⟩ ⟨i + 1, .value (σ name) :: stack, r.slotsOf σ⟩ := by
  obtain ⟨slot, hi, hname⟩ := h
  apply reaches_of_step
  rw [step_eq hi]
  change ((r.slotsOf σ)[slot.toNat]?).bind _ = _
  rw [Routine.getElem?_slotsOf hname]
  rfl

/-- A value on the stack goes to the slot of a name. -/
theorem reaches_store (hn : r.locals.Nodup) {name : String} (h : r.StoreAt i name) (v : V) :
    Reaches I r 2 ⟨i, .value v :: stack, r.slotsOf σ⟩
      ⟨i + 2, stack, r.slotsOf (σ.set name v)⟩ := by
  obtain ⟨⟨slot, hi, hname⟩, hset⟩ := h
  have href : Reaches I r 1 ⟨i, .value v :: stack, r.slotsOf σ⟩
      ⟨i + 1, .reference slot.toNat :: .value v :: stack, r.slotsOf σ⟩ := by
    apply reaches_of_step
    rw [step_eq hi]
    rfl
  refine href.trans (reaches_of_step ?_)
  rw [step_eq hset, ← Routine.slotsOf_set hn hname]
  rfl

/-- The value in the slot of a name goes up or down by one. -/
theorem reaches_incDec (hn : r.locals.Nodup) {name : String} (increment : Bool)
    (h : r.SlotAt i .evalLocalRef name)
    (hi : r.code[i + 1]? = some ⟨if increment then .inc else .dec, []⟩) :
    Reaches I r 2 ⟨i, stack, r.slotsOf σ⟩
      ⟨i + 2, stack,
        r.slotsOf (σ.set name (if increment then I.inc (σ name) else I.dec (σ name)))⟩ := by
  obtain ⟨slot, href, hname⟩ := h
  have hpush : Reaches I r 1 ⟨i, stack, r.slotsOf σ⟩
      ⟨i + 1, .reference slot.toNat :: stack, r.slotsOf σ⟩ := by
    apply reaches_of_step
    rw [step_eq href]
    rfl
  refine hpush.trans (reaches_of_step ?_)
  rw [step_eq hi, ← Routine.slotsOf_set hn hname]
  cases increment <;>
    · change ((r.slotsOf σ)[slot.toNat]?).bind _ = _
      rw [Routine.getElem?_slotsOf hname]
      rfl

end Instructions

/-! ## Expressions -/

theorem Expr.eval_binary {op : BinaryOp} {opcode : Opcode} (hop : op.opcode? = some opcode)
    (σ : Store V) (span : Span) (left right : Expr) :
    (Expr.binary span left op right).eval I σ = I.binary op (left.eval I σ) (right.eval I σ) := by
  cases op <;> cases hop <;> rfl

/-- The single instruction of a literal pushes its value. -/
theorem reaches_atom {e : Expr} {ins : Instruction} {i : Nat} (he : e.isLocal = true)
    (ha : e.atom? = some ins) (hi : r.code[i]? = some ins) (σ : Store V) (stack : List (Cell V)) :
    Reaches I r 1 ⟨i, stack, r.slotsOf σ⟩ ⟨i + 1, .value (e.eval I σ) :: stack, r.slotsOf σ⟩ := by
  cases e with
  | text _ s | undefined _ =>
      cases ha
      apply reaches_of_step
      rw [step_eq hi]
      rfl
  | bool _ b =>
      cases b with
      | true =>
          cases ha
          exact reaches_constant rfl hi
      | false =>
          cases ha
          exact reaches_constant rfl hi
  | unary _ op e =>
      cases op with
      | neg =>
          cases e with
          | float => cases he
          | _ => cases ha
      | not | bitNot => cases ha
  | float _ _ | localized _ _ | level _ | self _ | game _ | anim _ | emptyArray _ => cases he
  | functionRef _ _ _ => cases he
  | _ => cases ha

/-- The code of an expression pushes its value and leaves the slots as they are. -/
theorem Expr.reaches_of_codeAt (e : Expr) {i j : Nat} (he : e.isLocal = true)
    (h : e.CodeAt scope r i j) (σ : Store V) (stack : List (Cell V)) :
    ∃ k, Reaches I r k ⟨i, stack, r.slotsOf σ⟩
      ⟨j, .value (e.eval I σ) :: stack, r.slotsOf σ⟩ := by
  match e with
  | .int _ n =>
      cases h with
      | int hc hi => exact ⟨1, reaches_constant hc hi⟩
      | atom ha hi => cases ha
  | .bool _ _ | .undefined _ | .text _ _ =>
      cases h with
      | atom ha hi => exact ⟨1, reaches_atom he ha hi σ stack⟩
  | .ident _ name =>
      cases h with
      | ident hs => exact ⟨1, reaches_evalLocal hs⟩
      | atom ha hi => cases ha
  | .unary _ .neg e =>
      cases h with
      | negInt hc hi =>
          refine ⟨1, ?_⟩
          rw [Expr.eval, Expr.eval, I.sub_int]
          exact reaches_constant hc hi
      | neg hz hcode hm =>
          obtain ⟨k, hk⟩ := e.reaches_of_codeAt he hcode σ (.value (I.int 0) :: stack)
          have hop : BinaryOp.sub.opcode? = some .minus := rfl
          exact ⟨1 + k + 1, ((reaches_constant rfl hz).trans hk).trans (reaches_binary hop hm _ _)⟩
      | atom ha hi => exact ⟨1, reaches_atom he ha hi σ stack⟩
  | .unary _ .not e =>
      cases h with
      | not hcode hn =>
          obtain ⟨k, hk⟩ := e.reaches_of_codeAt he hcode σ stack
          refine ⟨k + 1, hk.trans (reaches_of_step ?_)⟩
          rw [step_eq hn]
          rfl
      | atom ha hi => cases ha
  | .unary _ .bitNot e =>
      cases h with
      | bitNot hcode hn =>
          obtain ⟨k, hk⟩ := e.reaches_of_codeAt he hcode σ stack
          refine ⟨k + 1, hk.trans (reaches_of_step ?_)⟩
          rw [step_eq hn]
          rfl
      | atom ha hi => cases ha
  | .binary _ left op right =>
      obtain ⟨hel, her⟩ := Bool.and_eq_true_iff.1 he
      cases h with
      | and hl hj hr =>
          obtain ⟨k, hk⟩ := left.reaches_of_codeAt hel hl σ stack
          have hjump := hk.trans (reaches_jumpOnFalseExpr hj (left.eval I σ))
          by_cases ht : I.truth (left.eval I σ) = true
          · obtain ⟨m, hm⟩ := right.reaches_of_codeAt her hr σ stack
            rw [if_pos ht] at hjump
            rw [Expr.eval, if_pos ht]
            exact ⟨k + 1 + m, hjump.trans hm⟩
          · rw [if_neg ht] at hjump
            rw [Expr.eval, if_neg ht]
            exact ⟨k + 1, hjump⟩
      | or hl hj hr =>
          obtain ⟨k, hk⟩ := left.reaches_of_codeAt hel hl σ stack
          have hjump := hk.trans (reaches_jumpOnTrueExpr hj (left.eval I σ))
          by_cases ht : I.truth (left.eval I σ) = true
          · rw [if_pos ht] at hjump
            rw [Expr.eval, if_pos ht]
            exact ⟨k + 1, hjump⟩
          · obtain ⟨m, hm⟩ := right.reaches_of_codeAt her hr σ stack
            rw [if_neg ht] at hjump
            rw [Expr.eval, if_neg ht]
            exact ⟨k + 1 + m, hjump.trans hm⟩
      | binary hop hl hr hi =>
          obtain ⟨k, hk⟩ := left.reaches_of_codeAt hel hl σ stack
          obtain ⟨m, hm⟩ := right.reaches_of_codeAt her hr σ (.value (left.eval I σ) :: stack)
          rw [Expr.eval_binary hop]
          exact ⟨k + m + 1, (hk.trans hm).trans (reaches_binary hop hi _ _)⟩
      | atom ha hi => cases ha
  | .ternary _ c yes no =>
      obtain ⟨hecy, hen⟩ := Bool.and_eq_true_iff.1 he
      obtain ⟨hec, hey⟩ := Bool.and_eq_true_iff.1 hecy
      cases h with
      | ternary hc hj hy hjy hno =>
          obtain ⟨k, hk⟩ := c.reaches_of_codeAt hec hc σ stack
          have hjump := hk.trans (reaches_jumpOnFalse hj (c.eval I σ))
          by_cases ht : I.truth (c.eval I σ) = true
          · obtain ⟨m, hm⟩ := yes.reaches_of_codeAt hey hy σ stack
            rw [if_pos ht] at hjump
            rw [Expr.eval, if_pos ht]
            exact ⟨k + 1 + m + 1, (hjump.trans hm).trans (reaches_jump hjy)⟩
          · obtain ⟨m, hm⟩ := no.reaches_of_codeAt hen hno σ stack
            rw [if_neg ht] at hjump
            rw [Expr.eval, if_neg ht]
            exact ⟨k + 1 + m, hjump.trans hm⟩
      | atom ha hi => cases ha

/-- The test of a loop leads into the loop or out of it. -/
theorem reaches_of_guardAt {exit i j : Nat} {condition : Option Expr}
    (h : GuardAt scope r exit condition i j) (hc : condition.all Expr.isLocal = true)
    (σ : Store V) :
    ∃ k, Reaches I r k ⟨i, [], r.slotsOf σ⟩
      ⟨if holds I condition σ then j else exit, [], r.slotsOf σ⟩ := by
  cases h with
  | none => exact ⟨0, .refl _⟩
  | @always e _ he =>
      have ht : holds I (some e) σ = true := by
        cases e with
        | int _ n =>
            have hn : n ≠ 0 := by simpa [Expr.isAlwaysTrue] using he
            have hne : n.toInt ≠ 0 := fun h0 => hn (Int64.toInt_inj.1 h0)
            simp [holds, Expr.eval, I.truth_int, hne]
        | bool _ b =>
            have hb : b = true := he
            simp [holds, Expr.eval, I.truth_int, hb]
        | _ => cases he
      rw [if_pos ht]
      exact ⟨0, .refl _⟩
  | test hcode hj =>
      obtain ⟨k, hk⟩ := Expr.reaches_of_codeAt _ hc hcode σ []
      exact ⟨k + 1, hk.trans (reaches_jumpOnFalse hj _)⟩

/-! ## Statements -/

/-- From a state with store `σ` the machine ends as an execution does: where the end of a statement
leads, with a result, or later than after `n` steps. -/
inductive Ends (I : Interpretation V) (r : Routine) (loop : Option LoopTargets) (j n : Nat)
    (σ : Store V) (s : State V) : Execution V → Prop where
  | late : run I r n s = none → Ends I r loop j n σ s none
  | normal {σ' : Store V} {k : Nat} :
      r.Agree σ σ' → Reaches I r k s ⟨j, [], r.slotsOf σ'⟩ →
      Ends I r loop j n σ s (some (.normal, σ'))
  | leaving {σ' : Store V} {targets : LoopTargets} {k : Nat} :
      loop = some targets → r.Agree σ σ' →
      Reaches I r k s ⟨targets.breakTo, [], r.slotsOf σ'⟩ →
      Ends I r loop j n σ s (some (.leaving, σ'))
  | continuing {σ' : Store V} {targets : LoopTargets} {k : Nat} :
      loop = some targets → r.Agree σ σ' → 0 < k →
      Reaches I r k s ⟨targets.continueTo, [], r.slotsOf σ'⟩ →
      Ends I r loop j n σ s (some (.continuing, σ'))
  | returning {σ' : Store V} {v : V} {k : Nat} :
      r.Agree σ σ' → run I r k s = some (v, r.slotsOf σ') →
      Ends I r loop j n σ s (some (.returning v, σ'))

namespace Ends

variable {loop : Option LoopTargets} {j n : Nat} {σ : Store V} {s : State V} {out : Execution V}

/-- Steps in front only put off the end. -/
theorem after {k m : Nat} {σ₁ : Store V} {t : State V} (hk : Reaches I r k s t)
    (ha : r.Agree σ σ₁) (hm : m ≤ k + n) (h : Ends I r loop j n σ₁ t out) :
    Ends I r loop j m σ s out := by
  cases h with
  | late hl =>
      refine .late (run_eq_none_of_le ?_ hm)
      rw [hk, hl]
  | normal ha' hr => exact .normal (ha.trans ha') (hk.trans hr)
  | leaving hl ha' hr => exact .leaving hl (ha.trans ha') (hk.trans hr)
  | continuing hl ha' hpos hr => exact .continuing hl (ha.trans ha') (by omega) (hk.trans hr)
  | @returning σ' v l ha' hr =>
      refine .returning (ha.trans ha') (?_ : run I r (k + l) s = _)
      rw [hk, hr]

theorem thenJump {c : Nat} (h : Ends I r loop c n σ s out) (hj : r.JumpAt c .jump j) :
    Ends I r loop j n σ s out := by
  cases h with
  | late hl => exact .late hl
  | normal ha hr => exact .normal ha (hr.trans (reaches_jump hj))
  | leaving hl ha hr => exact .leaving hl ha hr
  | continuing hl ha hpos hr => exact .continuing hl ha hpos hr
  | returning ha hr => exact .returning ha hr

/-- One execution after the other. -/
theorem andThen {c m : Nat} {first : Execution V} {next : Store V → Execution V}
    (h : Ends I r loop c n σ s first) (hm : m ≤ n)
    (hnext : ∀ k σ₁, r.Agree σ σ₁ → Reaches I r k s ⟨c, [], r.slotsOf σ₁⟩ →
      Ends I r loop j m σ s (next σ₁)) :
    Ends I r loop j m σ s (first.andThen next) := by
  cases h with
  | late hl => exact .late (run_eq_none_of_le hl hm)
  | normal ha hr => exact hnext _ _ ha hr
  | leaving hl ha hr => exact .leaving hl ha hr
  | continuing hl ha hpos hr => exact .continuing hl ha hpos hr
  | returning ha hr => exact .returning ha hr

end Ends

/-- A loop from index `a`: its test leads to the body at `b` or to `exit`, the body ends at `m`, the
step goes from `m` to `c`, and from there the loop jumps back. After `continue` the loop goes on
with the step, or at once when there is none. -/
theorem ends_repeatWhile {loop : Option LoopTargets} {a b m c exit next fuel : Nat}
    {test : Store V → Bool} {body step : Store V → Execution V}
    (htest : ∀ σ, ∃ k, Reaches I r k ⟨a, [], r.slotsOf σ⟩
      ⟨if test σ then b else exit, [], r.slotsOf σ⟩)
    (hbody : ∀ σ, Ends I r (some ⟨exit, next⟩) m fuel σ ⟨b, [], r.slotsOf σ⟩ (body σ))
    (hstep : ∀ σ, Ends I r loop c fuel σ ⟨m, [], r.slotsOf σ⟩ (step σ))
    (hjump : r.JumpAt c .jump a)
    (hnext : next = m ∨ next = a ∧ ∀ σ, step σ = some (.normal, σ)) (n : Nat) (hn : n ≤ fuel)
    (σ : Store V) :
    Ends I r loop exit n σ ⟨a, [], r.slotsOf σ⟩ (repeatWhile test body step n σ) := by
  induction n generalizing σ with
  | zero => exact .late rfl
  | succ n ih =>
      -- Going round takes at least the jump back, so that a step is left for every round.
      have hround : ∀ k σ₁, r.Agree σ σ₁ →
          Reaches I r k ⟨a, [], r.slotsOf σ⟩ ⟨m, [], r.slotsOf σ₁⟩ →
          Ends I r loop exit (n + 1) σ ⟨a, [], r.slotsOf σ⟩
            ((step σ₁).andThen (repeatWhile test body step n)) := by
        intro k σ₁ ha hk
        have hfirst := (hstep σ₁).after hk ha (m := fuel) (by omega)
        refine hfirst.andThen hn fun l σ₂ ha₂ hl => ?_
        exact (ih (by omega) σ₂).after (hl.trans (reaches_jump hjump)) ha₂ (by omega)
      obtain ⟨k, hk⟩ := htest σ
      by_cases ht : test σ = true
      · rw [if_pos ht] at hk
        rw [repeatWhile, if_pos ht]
        have hb := hbody σ
        generalize body σ = out at hb
        cases hb with
        | late hl =>
            refine .late (run_eq_none_of_le (n := k + fuel) ?_ (by omega))
            rw [hk, hl]
        | normal ha hr => exact hround _ _ ha (hk.trans hr)
        | leaving hl ha hr =>
            cases hl
            exact .normal ha (hk.trans hr)
        | continuing hl ha hpos hr =>
            cases hl
            rcases hnext with rfl | ⟨rfl, hskip⟩
            · exact hround _ _ ha (hk.trans hr)
            · simp only [hskip, Execution.andThen]
              exact (ih (by omega) _).after (hk.trans hr) ha (by omega)
        | @returning σ' v l ha hr =>
            refine .returning ha (?_ : run I r (k + l) _ = _)
            rw [hk, hr]
      · rw [if_neg ht] at hk
        rw [repeatWhile, if_neg ht]
        exact .normal (.refl r σ) hk

theorem Routine.SlotAt.agree_set {i : Nat} {opcode : Opcode} {name : String}
    (h : r.SlotAt i opcode name) (σ : Store V) (v : V) : r.Agree σ (σ.set name v) := by
  obtain ⟨slot, -, hname⟩ := h
  exact Routine.agree_set hname

theorem ends_assign (hn : r.locals.Nodup) {loop : Option LoopTargets} {i j fuel : Nat}
    {span : Span} {target value : Expr} {op : AssignOp} (ht : target.isIdent = true)
    (hv : value.isLocal = true) (h : Stmt.CodeAt scope r loop (.assign span target op value) i j)
    (σ : Store V) :
    Ends I r loop j fuel σ ⟨i, [], r.slotsOf σ⟩
      (Stmt.exec I fuel (.assign span target op value) σ) := by
  cases h with
  | assign hcode href hset =>
      cases href with
      | ident hs =>
          obtain ⟨k, hk⟩ := value.reaches_of_codeAt hv hcode σ []
          exact .normal (hs.agree_set σ _) (hk.trans (reaches_store hn ⟨hs, hset⟩ _))
      | field | index => cases ht
  | compound hop htarget hcode hi href hset =>
      cases href with
      | ident hs =>
          obtain ⟨k, hk⟩ := Expr.reaches_of_codeAt (I := I) _ rfl htarget σ []
          obtain ⟨l, hl⟩ := value.reaches_of_codeAt hv hcode σ _
          have hvalue := (hk.trans hl).trans (reaches_binary hop hi _ _)
          exact .normal (hs.agree_set σ _) (hvalue.trans (reaches_store hn ⟨hs, hset⟩ _))
      | field | index => cases ht

mutual

/-- The machine ends with the code of a statement as the statement does. -/
theorem Stmt.ends_of_codeAt (hn : r.locals.Nodup) (s : Stmt) {loop : Option LoopTargets}
    {i j : Nat} (hs : s.isLocal = true) (h : s.CodeAt scope r loop i j) (fuel : Nat)
    (σ : Store V) : Ends I r loop j fuel σ ⟨i, [], r.slotsOf σ⟩ (s.exec I fuel σ) := by
  match s with
  | .block _ body =>
      cases h with
      | block hb =>
          rw [Stmt.exec]
          exact ends_of_bodyAt hn body hs hb fuel σ
  | .ifElse _ e yes no =>
      obtain ⟨hey, hno⟩ := Bool.and_eq_true_iff.1 hs
      obtain ⟨he, hyes⟩ := Bool.and_eq_true_iff.1 hey
      cases h with
      | ifThen hc hj hy =>
          obtain ⟨k, hk⟩ := e.reaches_of_codeAt he hc σ []
          have hjump := hk.trans (reaches_jumpOnFalse hj (e.eval I σ))
          by_cases ht : I.truth (e.eval I σ) = true
          · rw [if_pos ht] at hjump
            rw [Stmt.exec, if_pos ht]
            exact (yes.ends_of_codeAt hn hyes hy fuel σ).after hjump (.refl r σ) (by omega)
          · rw [if_neg ht] at hjump
            rw [Stmt.exec, if_neg ht]
            exact .normal (.refl r σ) hjump
      | ifElse hc hj hy hjy hnocode =>
          obtain ⟨k, hk⟩ := e.reaches_of_codeAt he hc σ []
          have hjump := hk.trans (reaches_jumpOnFalse hj (e.eval I σ))
          by_cases ht : I.truth (e.eval I σ) = true
          · rw [if_pos ht] at hjump
            rw [Stmt.exec, if_pos ht]
            exact ((yes.ends_of_codeAt hn hyes hy fuel σ).after hjump (.refl r σ)
              (by omega)).thenJump hjy
          · rw [if_neg ht] at hjump
            rw [Stmt.exec, if_neg ht]
            exact (Stmt.ends_of_codeAt hn _ hno hnocode fuel σ).after hjump (.refl r σ) (by omega)
  | .whileLoop _ e body =>
      obtain ⟨he, hb⟩ := Bool.and_eq_true_iff.1 hs
      cases h with
      | whileLoop hg hbody hj =>
          rw [Stmt.exec]
          exact ends_repeatWhile (reaches_of_guardAt hg he)
            (fun σ => body.ends_of_codeAt hn hb hbody fuel σ)
            (fun σ => .normal (.refl r σ) (.refl _)) hj (.inr ⟨rfl, fun _ => rfl⟩) fuel
            (Nat.le_refl _) σ
  | .forLoop _ init e step body =>
      obtain ⟨hies, hb⟩ := Bool.and_eq_true_iff.1 hs
      obtain ⟨hie, hstep⟩ := Bool.and_eq_true_iff.1 hies
      obtain ⟨hi, he⟩ := Bool.and_eq_true_iff.1 hie
      cases h with
      | forLoop hinit hg hbody hcode hj =>
          rw [Stmt.exec]
          refine (ends_of_clauseAt hn init hi hinit fuel σ).andThen (Nat.le_refl _) ?_
          intro k σ₁ ha hk
          exact (ends_repeatWhile (reaches_of_guardAt hg he)
            (fun σ => body.ends_of_codeAt hn hb hbody fuel σ)
            (fun σ => ends_of_clauseAt hn step hstep hcode fuel σ) hj (.inl rfl) fuel
            (Nat.le_refl _) σ₁).after hk ha (by omega)
  | .ret _ none =>
      cases h with
      | finish hi =>
          refine .returning (.refl r σ) (?_ : run I r 1 _ = _)
          rw [run, step_eq hi]
          rfl
  | .ret _ (some e) =>
      cases h with
      | giveBack hcode hi =>
          obtain ⟨k, hk⟩ := e.reaches_of_codeAt hs hcode σ []
          refine .returning (.refl r σ) (?_ : run I r (k + 1) _ = _)
          rw [hk, run, step_eq hi]
          rfl
  | .breakLoop _ =>
      cases h with
      | breakLoop hj => exact .leaving rfl (.refl r σ) (reaches_jump hj)
  | .continueLoop _ =>
      cases h with
      | continueLoop hj => exact .continuing rfl (.refl r σ) Nat.zero_lt_one (reaches_jump hj)
  | .assign _ target op value =>
      obtain ⟨ht, hv⟩ := Bool.and_eq_true_iff.1 hs
      exact ends_assign hn ht hv h σ
  | .incDec _ target increment =>
      cases h with
      | incDec href hi =>
          cases href with
          | ident hslot =>
              cases increment with
              | true => exact .normal (hslot.agree_set σ _) (reaches_incDec hn true hslot hi)
              | false => exact .normal (hslot.agree_set σ _) (reaches_incDec hn false hslot hi)
          | field | index => cases hs
  | .empty _ =>
      cases h with
      | empty => exact .normal (.refl r σ) (.refl _)

theorem ends_of_bodyAt (hn : r.locals.Nodup) (body : List Stmt) {loop : Option LoopTargets}
    {i j : Nat} (hb : bodyIsLocal body = true) (h : BodyAt scope r loop body i j) (fuel : Nat)
    (σ : Store V) : Ends I r loop j fuel σ ⟨i, [], r.slotsOf σ⟩ (execBody I fuel body σ) := by
  match body with
  | [] =>
      cases h with
      | nil => exact .normal (.refl r σ) (.refl _)
  | s :: rest =>
      obtain ⟨hs, hrest⟩ := Bool.and_eq_true_iff.1 hb
      cases h with
      | cons hcode htail =>
          rw [execBody]
          refine (s.ends_of_codeAt hn hs hcode fuel σ).andThen (Nat.le_refl _) ?_
          intro k σ₁ ha hk
          exact (ends_of_bodyAt hn rest hrest htail fuel σ₁).after hk ha (by omega)

theorem ends_of_clauseAt (hn : r.locals.Nodup) (clause : Option Stmt) {loop : Option LoopTargets}
    {i j : Nat} (hc : clauseIsLocal clause = true) (h : ClauseAt scope r loop clause i j)
    (fuel : Nat) (σ : Store V) :
    Ends I r loop j fuel σ ⟨i, [], r.slotsOf σ⟩ (execClause I fuel clause σ) := by
  match clause with
  | none =>
      cases h with
      | none => exact .normal (.refl r σ) (.refl _)
  | some s =>
      cases h with
      | some hcode => exact s.ends_of_codeAt hn hc hcode fuel σ

end

/-! ## Functions -/

/-- The machine ends with the code of a function as the body of the function does. -/
theorem Routine.CodeOf.ends {f : Function} {last : Nat} (h : r.CodeOf scope f last)
    (hf : bodyIsLocal f.body = true) (fuel : Nat) (σ : Store V) :
    Ends I r none last fuel σ ⟨0, [], r.slotsOf σ⟩ (execBody I fuel f.body σ) := by
  obtain ⟨params, hentry⟩ := h.entry
  have hroom := h.room
  have hcount : (r.slotsOf σ).length = r.locals.length.toUInt8.toNat := by
    rw [slotsOf, List.length_map, Nat.toUInt8_eq, UInt8.toNat_ofNat', Nat.mod_eq_of_lt]
    rw [Slots.limit] at hroom
    omega
  have hfirst : Reaches I r 1 ⟨0, [], r.slotsOf σ⟩ ⟨1, [], r.slotsOf σ⟩ := by
    apply reaches_of_step
    rw [step_eq hentry]
    change (if _ then State.next _ _ else none) = _
    rw [if_pos hcount]
    rfl
  exact (ends_of_bodyAt h.nodup f.body hf h.body fuel σ).after hfirst (.refl r σ) (by omega)

theorem Routine.CodeOf.finishes_of_run {f : Function} {last fuel : Nat} {σ σ' : Store V} {v : V}
    (h : r.CodeOf scope f last) (hf : bodyIsLocal f.body = true)
    (hr : f.run I fuel σ = some (v, σ')) :
    Finishes I r (r.slotsOf σ) v (r.slotsOf σ') ∧ r.Agree σ σ' := by
  have he := h.ends (I := I) hf fuel σ
  unfold Function.run at hr
  generalize execBody I fuel f.body σ = out at hr he
  cases he with
  | late | leaving | continuing => cases hr
  | @normal σ₁ k ha hk =>
      cases hr
      refine ⟨⟨k + 1, ?_⟩, ha⟩
      rw [hk, run, step_eq h.finish]
      rfl
  | @returning σ₁ v₁ k ha hk =>
      cases hr
      exact ⟨⟨k, hk⟩, ha⟩

/-- When the machine ends after `n` steps, no loop goes round more often than that. -/
theorem Routine.CodeOf.run_of_finishes {f : Function} {last n : Nat} {σ : Store V}
    {result : V × List V} (h : r.CodeOf scope f last) (hf : bodyIsLocal f.body = true)
    (hr : run I r n ⟨0, [], r.slotsOf σ⟩ = some result) :
    ∃ v σ', f.run I n σ = some (v, σ') := by
  have he := h.ends (I := I) hf n σ
  unfold Function.run
  generalize execBody I n f.body σ = out at he ⊢
  cases he with
  | late hl =>
      rw [hl] at hr
      cases hr
  | leaving hl | continuing hl => cases hl
  | normal ha hk => exact ⟨_, _, rfl⟩
  | returning ha hk => exact ⟨_, _, rfl⟩

theorem Routine.Agree.eq_of_slotsOf {σ σ₁ σ₂ : Store V} (h₁ : r.Agree σ σ₁) (h₂ : r.Agree σ σ₂)
    (hs : r.slotsOf σ₁ = r.slotsOf σ₂) : σ₁ = σ₂ := by
  funext name
  by_cases hn : name ∈ r.locals
  · exact List.map_inj_left.1 hs name hn
  · rw [h₁ name hn, h₂ name hn]

/-- A function that lowers without findings ends with a result and a store if and only if the
machine, started at the first instruction of its routine, ends with the same. -/
theorem Function.run_iff_finishes_lower (I : Interpretation V) (scope : Scope) (f : Function)
    (hf : bodyIsLocal f.body = true) (hl : (f.lower scope).2 = []) (σ σ' : Store V) (v : V) :
    (∃ fuel, f.run I fuel σ = some (v, σ')) ↔
      Finishes I (f.lower scope).1 ((f.lower scope).1.slotsOf σ) v
          ((f.lower scope).1.slotsOf σ') ∧
        (f.lower scope).1.Agree σ σ' := by
  obtain ⟨last, hc⟩ := Function.codeOf_lower hl
  constructor
  · rintro ⟨fuel, hr⟩
    exact hc.finishes_of_run hf hr
  · rintro ⟨⟨n, hr⟩, ha⟩
    obtain ⟨v₁, σ₁, hrun⟩ := hc.run_of_finishes hf hr
    obtain ⟨⟨m, hm⟩, ha₁⟩ := hc.finishes_of_run hf hrun
    obtain ⟨rfl, hs⟩ := Prod.mk.inj (run_unique hr hm)
    rw [ha.eq_of_slotsOf ha₁ hs]
    exact ⟨n, hrun⟩

def Interpretation.integers : Interpretation Int where
  int n := n
  text _ := 0
  undefined := 0
  truth n := decide (n ≠ 0)
  binary
    | .add, a, b => a + b
    | .sub, a, b => a - b
    | .mul, a, b => a * b
    | .mod, a, b => a % b
    | .lt, a, b => if a < b then 1 else 0
    | .eq, a, b => if a = b then 1 else 0
    | _, _, _ => 0
  not n := if n = 0 then 1 else 0
  bitNot n := -n - 1
  inc n := n + 1
  dec n := n - 1
  truth_int _ := rfl
  sub_int n := Int.zero_sub n

/-- The sum of the odd numbers below its parameter, at most of those below seven, or else seven. -/
def sumOdd : Function :=
  let at₀ : Span := ⟨0, 0⟩
  let var (name : String) : Expr := .ident at₀ name
  let num (n : Int64) : Expr := .int at₀ n
  { name := "sumodd"
    nameSpan := at₀
    params := [⟨"n", at₀⟩]
    body :=
      [.assign at₀ (var "s") .assign (num 0),
        .forLoop at₀ (some (.assign at₀ (var "i") .assign (num 0)))
          (some (.binary at₀ (var "i") .lt (var "n"))) (some (.incDec at₀ (var "i") true))
          (.block at₀
            [.ifElse at₀ (.binary at₀ (var "i") .eq (num 7)) (.breakLoop at₀) none,
              .ifElse at₀ (.unary at₀ .not (.binary at₀ (var "i") .mod (num 2)))
                (.continueLoop at₀) none,
              .assign at₀ (var "s") (.compound .add) (var "i")]),
        .ret at₀ (some (.binary at₀ (var "s") .or (num 7)))]
    span := at₀ }

theorem sumOdd_finishes :
    bodyIsLocal sumOdd.body = true ∧ (sumOdd.lower ⟨[]⟩).2 = [] ∧
      ∃ σ', Finishes .integers (sumOdd.lower ⟨[]⟩).1
        ((sumOdd.lower ⟨[]⟩).1.slotsOf fun _ => 20) 9 ((sumOdd.lower ⟨[]⟩).1.slotsOf σ') := by
  have hf : bodyIsLocal sumOdd.body = true := by rfl
  have hl : (sumOdd.lower ⟨[]⟩).2 = [] := by decide +kernel
  have hs : (sumOdd.run .integers 9 (fun _ => 20)).isSome = true := by rfl
  have hv : ((sumOdd.run .integers 9 (fun _ => 20)).get hs).1 = 9 := by rfl
  have hr := Option.some_get hs
  generalize (sumOdd.run .integers 9 (fun _ => 20)).get hs = result at hv hr
  obtain ⟨v, σ'⟩ := result
  cases hv
  have h := (sumOdd.run_iff_finishes_lower .integers ⟨[]⟩ hf hl (fun _ => 20) σ' 9).1 ⟨9, hr.symm⟩
  exact ⟨hf, hl, σ', h.1⟩

end Gsc
