import Gsc.Proofs.Peg.Pratt
import Gsc.Script.Reading
import Mathlib.Order.CompletePartialOrder

/-! # Rows of operators and operands

The grammar records an expression as a row in which every operand has operators before it and
suffixes behind it, and one operator stands between any two operands. The table of the operators
orders them by their classes, so such a row has one grouping that gives every operator the operands
that its class allows, and reading the row folds that grouping.
-/

namespace Gsc

open Computability
open Gsc.Peg
open Gsc.Peg.Pratt (Role Grouping Layered Callbacks)

namespace BinaryOp

def classes : List (List BinaryOp) :=
  [[.or], [.and], [.bitOr], [.bitXor], [.bitAnd], [.eq, .neq], [.lt, .gt, .lte, .gte],
    [.shl, .shr], [.add, .sub], [.mul, .div, .mod]]

def rank (op : BinaryOp) : Nat := classes.findIdx (·.contains op)

end BinaryOp

namespace Rule

def role? : Rule → Option Role
  | ident | number | string | localized | literal _ | funcCall | funcRef | parenOrVector
  | emptyArray => some .operand
  | unary _ => some .before
  | binary op => some (.between op.rank)
  | member | index | methodCall => some .behind
  | _ => none

/-! ## Rows of rules -/

def operands : Pattern Rule := .seq operand (.star (.seq binaryOperator operand))

/-- The pattern is a rule that plays one of these roles. -/
def PlaysIn (L : Language Role) (p : Pattern Rule) : Prop :=
  ∃ r role, p = .rule r ∧ r.role? = some role ∧ [role] ∈ L

theorem map_rows_choice_le {L : Language Role} {p : Pattern Rule} {ps : List (Pattern Rule)}
    (h : ∀ q ∈ p :: ps, PlaysIn L q) :
    Language.map role? ((Pattern.choice p ps).rows Eq) ≤ Language.map some L := by
  have hone {q : Pattern Rule} (hq : PlaysIn L q) :
      Language.map role? (q.rows Eq) ≤ Language.map some L := by
    obtain ⟨r, role, rfl, hr, hrole⟩ := hq
    rw [Pattern.rows_rule]
    rintro _ ⟨_, rfl, rfl⟩
    exact ⟨[role], hrole, by simp [hr]⟩
  induction ps generalizing p with
  | nil => exact hone (h p List.mem_cons_self)
  | cons q ps ih =>
      rw [List.forall_mem_cons] at h
      rw [Pattern.choice, Pattern.rows, map_add]
      exact add_le (hone h.1) (ih h.2)

theorem map_rows_unaryOperator :
    Language.map role? (unaryOperator.rows Eq) ≤ Language.map some {[.before]} := by
  apply map_rows_choice_le
  simp only [List.forall_mem_cons]
  exact ⟨⟨_, _, rfl, rfl, rfl⟩, ⟨_, _, rfl, rfl, rfl⟩, ⟨_, _, rfl, rfl, rfl⟩, List.forall_mem_nil _⟩

theorem map_rows_binaryOperator :
    Language.map role? (binaryOperator.rows Eq) ≤ Language.map some Role.joint := by
  apply map_rows_choice_le
  rw [List.forall_mem_cons, List.forall_mem_map]
  exact ⟨⟨_, _, rfl, rfl, _, rfl⟩, fun op _ => ⟨_, _, rfl, rfl, _, rfl⟩⟩

theorem map_rows_suffix :
    Language.map role? (suffix.rows Eq) ≤ Language.map some {[.behind]} := by
  apply map_rows_choice_le
  simp only [List.forall_mem_cons]
  exact ⟨⟨_, _, rfl, rfl, rfl⟩, ⟨_, _, rfl, rfl, rfl⟩, ⟨_, _, rfl, rfl, rfl⟩, List.forall_mem_nil _⟩

theorem map_rows_primary :
    Language.map role? (primary.rows Eq) ≤ Language.map some {[.operand]} := by
  have hplays {r : Rule} (hr : r.role? = some .operand) : PlaysIn {[.operand]} (.rule r) :=
    ⟨r, _, rfl, hr, rfl⟩
  apply map_rows_choice_le
  simp only [List.forall_mem_cons, List.forall_mem_append, List.forall_mem_map]
  exact ⟨hplays rfl, ⟨⟨hplays rfl, hplays rfl, hplays rfl, hplays rfl, hplays rfl, hplays rfl,
    List.forall_mem_nil _⟩, fun _ _ => hplays rfl⟩, hplays rfl, List.forall_mem_nil _⟩

/-- In the row of an expression the rules play the roles of operators and operands. -/
theorem map_rows_operands :
    Language.map role? (operands.rows Eq) ≤ Language.map some Role.rows := by
  have hoperand : Language.map role? (operand.rows Eq) ≤ Language.map some Role.single := by
    simp only [operand, Pattern.sequence, Pattern.rows, map_mul, Language.map_kstar, Role.single]
    exact mul_le_mul' (kstar_mono map_rows_unaryOperator)
      (mul_le_mul' map_rows_primary (kstar_mono map_rows_suffix))
  simp only [operands, Pattern.rows, map_mul, Language.map_kstar, Role.rows]
  exact mul_le_mul' hoperand (kstar_mono (mul_le_mul' map_rows_binaryOperator hoperand))

/-- The rules of an expression are a row of operators and operands, and then perhaps the branches
of a choice. -/
theorem exists_roles {rules : List Rule} (h : rules ∈ (body expr).rows Eq) :
    ∃ row, ∃ roles ∈ Role.rows, row.map role? = roles.map some ∧
      (rules = row ∨ rules = row ++ [ternarySuffix]) := by
  have hseq : (body expr).rows Eq
      = operands.rows Eq * (Pattern.opt (.rule ternarySuffix)).rows Eq := (mul_assoc _ _ _).symm
  rw [hseq] at h
  obtain ⟨row, hrow, back, hback, rfl⟩ := Language.mem_mul.1 h
  obtain ⟨roles, hroles, heq⟩ := map_rows_operands ⟨row, hrow, rfl⟩
  refine ⟨row, roles, hroles, heq.symm, ?_⟩
  rcases hback with ⟨_, rfl, rfl⟩ | rfl
  · exact .inr rfl
  · exact .inl (List.append_nil row)

end Rule

/-! ## The table of the operators -/

namespace Script

/-- The table lists binary operators by their classes, below the operators before an operand, and
these below what stands behind one. -/
theorem layered_precedence {π : Type} (rule : π → Rule) :
    Layered precedence rule (fun p => (rule p).role?) (fun n => 20 + 10 * n) 120 where
  mono := fun _ _ h => by dsimp only; omega
  pos := fun n => by omega
  operand := by
    intro p hp
    generalize rule p = r at hp ⊢
    cases r with
    | literal l => cases l <;> rfl
    | ident | number | string | localized | funcCall | funcRef | parenOrVector | emptyArray => rfl
    | _ => cases hp
  before := by
    intro p hp
    generalize rule p = r at hp ⊢
    cases r with
    | unary op => cases op <;> rfl
    | _ => cases hp
  behind := by
    intro p hp
    generalize rule p = r at hp ⊢
    cases r with
    | member | index | methodCall => exact ⟨130, by decide, rfl⟩
    | _ => cases hp
  between := by
    intro p n hp
    generalize rule p = r at hp ⊢
    cases r with
    | binary op =>
        cases hp
        cases op <;> exact ⟨by decide, rfl⟩
    | _ => cases hp

/-- A row of operators and operands has one grouping, and climbing folds it. -/
theorem exists_grouping {π : Type} (rule : π → Rule) {row : List π} {roles : List Role}
    (hroles : roles ∈ Role.rows) (h : row.map (fun p => (rule p).role?) = roles.map some) :
    ∃ g : Grouping π, g.row = row ∧ g.Grouped (fun p => (rule p).role?) ∧
      (∀ g' : Grouping π, g'.row = row → g'.Grouped (fun p => (rule p).role?) → g' = g) ∧
      ∀ {τ : Type} (c : Callbacks π τ), Pratt.parse precedence rule c row = g.fold c := by
  obtain ⟨g, rfl, hg⟩ := Grouping.exists_grouped hroles h
  have hlayered := layered_precedence rule
  refine ⟨g, rfl, hg, fun g' hrow hg' => ?_, fun c => hlayered.parse_row (by decide) hg c⟩
  exact hlayered.eq_of_row (by decide) hg' hg hrow

end Script

end Gsc
