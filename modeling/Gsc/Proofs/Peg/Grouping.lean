import Gsc.Peg.Pratt
import Gsc.Proofs.Peg.Shapes

/-! # Groupings of a row

A grouping says which elements of a row belong together. In a row in which every operand has
operators before it and suffixes behind it, and one operator stands between any two operands, the
elements can be grouped so that no operator takes what belongs to one that binds more.
-/

namespace Gsc.Peg.Pratt

open Computability

variable {π τ : Type}

/-- What an element does in a row. Operators between two operands have a rank. -/
inductive Role where
  | operand
  | before
  | between (rank : Nat)
  | behind
  deriving DecidableEq, Repr

namespace Role

def single : Language Role := {[before]}∗ * ({[operand]} * {[behind]}∗)

def joint : Language Role := {w | ∃ rank, w = [between rank]}

/-- One operand or more, with an operator between any two. -/
def rows : Language Role := single * (joint * single)∗

end Role

/-- Which elements of a row belong together: an operand, or an operator with what it is applied
to. -/
inductive Grouping (π : Type) where
  | operand (p : π)
  | before (p : π) (inner : Grouping π)
  | between (left : Grouping π) (p : π) (right : Grouping π)
  | behind (base : Grouping π) (p : π)
  deriving DecidableEq

namespace Grouping

def row : Grouping π → List π
  | operand p => [p]
  | before p inner => p :: inner.row
  | between left p right => left.row ++ p :: right.row
  | behind base p => base.row ++ [p]

/-- What the callbacks make of it, operands first. -/
def fold (c : Callbacks π τ) : Grouping π → Except String τ
  | operand p => c.operand p
  | before p inner => inner.fold c >>= c.before p
  | between left p right => left.fold c >>= fun lhs => right.fold c >>= c.between lhs p
  | behind base p => base.fold c >>= fun lhs => c.behind lhs p

def root : Grouping π → π
  | operand p | before p _ | between _ p _ | behind _ p => p

variable (role : π → Option Role)

/-- An operator between two operands that is applied last has at least this rank. -/
def AtLeast (n : Nat) (g : Grouping π) : Prop := ∀ m, role g.root = some (.between m) → n ≤ m

def IsSingle (g : Grouping π) : Prop := ∀ m, role g.root ≠ some (.between m)

/-- To the left of an operator stands nothing that binds less, to its right only what binds more. An
operator before an operand is not applied to one between two, and what stands behind an operand not
to an operator of either kind. -/
def Grouped : Grouping π → Prop
  | operand p => role p = some .operand
  | before p inner => role p = some .before ∧ inner.Grouped ∧ inner.IsSingle role
  | between left p right => ∃ n, role p = some (.between n) ∧
      left.Grouped ∧ right.Grouped ∧ left.AtLeast role n ∧ right.AtLeast role (n + 1)
  | behind base p =>
    role p = some .behind ∧ base.Grouped ∧ base.IsSingle role ∧ role base.root ≠ some .before

variable {role} {g right : Grouping π} {p : π} {n : Nat}

theorem IsSingle.atLeast (h : g.IsSingle role) (n : Nat) : g.AtLeast role n :=
  fun m hm => absurd hm (h m)

theorem isSingle_of_role {r : Role} (h : role g.root = some r) (hr : ∀ m, r ≠ .between m) :
    g.IsSingle role := by
  intro m hm
  rw [h] at hm
  exact hr m (Option.some.inj hm)

/-! ## Rows that can be grouped -/

theorem role_of_mem_kstar {row : List π} {roles : List Role} {r : Role}
    (h : roles ∈ ({[r]} : Language Role)∗) (hrow : row.map role = roles.map some) :
    ∀ p ∈ row, role p = some r := by
  have hroles : ∀ found ∈ roles, found = r := by
    refine Pattern.forall_mem_of_mem_kstar ?_ h
    rintro _ rfl
    exact List.forall_mem_singleton.2 rfl
  have hall : ∀ found ∈ row.map role, found = some r := by
    rw [hrow]
    exact List.forall_mem_map.2 fun found hfound => by rw [hroles found hfound]
  exact List.forall_mem_map.1 hall

theorem exists_behind {row : List π} (base : Grouping π) (hbase : base.Grouped role)
    (hsingle : base.IsSingle role) (hbefore : role base.root ≠ some .before)
    (h : ∀ p ∈ row, role p = some .behind) :
    ∃ g : Grouping π, g.row = base.row ++ row ∧ g.Grouped role ∧ g.IsSingle role := by
  induction row generalizing base with
  | nil => exact ⟨base, (List.append_nil _).symm, hbase, hsingle⟩
  | cons p row ih =>
      rw [List.forall_mem_cons] at h
      have hroot : role (base.behind p).root = some .behind := h.1
      obtain ⟨g, hrow, hg⟩ := ih (base.behind p) ⟨h.1, hbase, hsingle, hbefore⟩
        (isSingle_of_role hroot nofun) (by simp [hroot]) h.2
      exact ⟨g, by rw [hrow, Grouping.row, List.append_assoc]; rfl, hg⟩

theorem exists_before {row : List π} (hg : g.Grouped role) (hsingle : g.IsSingle role)
    (h : ∀ p ∈ row, role p = some .before) :
    ∃ g' : Grouping π, g'.row = row ++ g.row ∧ g'.Grouped role ∧ g'.IsSingle role := by
  induction row with
  | nil => exact ⟨g, rfl, hg, hsingle⟩
  | cons p row ih =>
      rw [List.forall_mem_cons] at h
      obtain ⟨inner, hrow, hinner, hone⟩ := ih h.2
      have hroot : role (before p inner).root = some .before := h.1
      exact ⟨before p inner, by rw [Grouping.row, hrow]; rfl, ⟨h.1, hinner, hone⟩,
        isSingle_of_role hroot nofun⟩

theorem exists_single {row : List π} {roles : List Role} (h : roles ∈ Role.single)
    (hrow : row.map role = roles.map some) :
    ∃ g : Grouping π, g.row = row ∧ g.Grouped role ∧ g.IsSingle role := by
  obtain ⟨fronts, hfronts, _, ⟨_, rfl, backs, hbacks, rfl⟩, rfl⟩ := Language.mem_mul.1 h
  rw [List.map_append] at hrow
  obtain ⟨front, rest, rfl, hfront, hrest⟩ := List.map_eq_append_iff.1 hrow
  obtain ⟨p, back, rfl, hp, hback⟩ := List.map_eq_cons_iff.1 hrest
  obtain ⟨g, hg, hgrouped, hsingle⟩ := exists_behind (operand p) hp
    (isSingle_of_role hp nofun) (by simp [root, hp]) (role_of_mem_kstar hbacks hback)
  obtain ⟨g', hg', hgrouped'⟩ :=
    exists_before hgrouped hsingle (role_of_mem_kstar hfronts hfront)
  exact ⟨g', by rw [hg', hg]; rfl, hgrouped'⟩

/-- One more operator with its right operand at the end of a row. -/
def Pushed (role : π → Option Role) (n : Nat) (g : Grouping π) (p : π) (right : Grouping π)
    (g' : Grouping π) : Prop :=
  g'.row = g.row ++ p :: right.row ∧ g'.Grouped role ∧
    ∀ k ≤ n, g.AtLeast role k → g'.AtLeast role k

theorem pushed_between (hg : g.Grouped role) (hlow : g.AtLeast role n)
    (hp : role p = some (.between n)) (hright : right.Grouped role)
    (hsingle : right.IsSingle role) : Pushed role n g p right (between g p right) := by
  refine ⟨rfl, ⟨n, hp, hg, hright, hlow, hsingle.atLeast _⟩, fun k hk _ m hm => ?_⟩
  rw [root, hp] at hm
  cases hm
  exact hk

/-- It goes to the right of all operators that bind less. -/
theorem exists_pushed (hg : g.Grouped role) (hp : role p = some (.between n))
    (hright : right.Grouped role) (hsingle : right.IsSingle role) :
    ∃ g', Pushed role n g p right g' := by
  have hlast {g : Grouping π} {r : Role} (hg : g.Grouped role) (hr : role g.root = some r)
      (hne : ∀ m, r ≠ .between m) : ∃ g', Pushed role n g p right g' :=
    ⟨_, pushed_between hg ((isSingle_of_role hr hne).atLeast n) hp hright hsingle⟩
  induction g with
  | operand q => exact hlast hg hg nofun
  | before q inner => exact hlast hg hg.1 nofun
  | behind base q => exact hlast hg hg.1 nofun
  | between left q inner _ ih =>
      obtain ⟨m, hq, hleft, hinner, hlow, hhigh⟩ := hg
      by_cases hmn : m < n
      · obtain ⟨inner', hrow, hinner', hkeep⟩ := ih hinner
        refine ⟨between left q inner', ?_, ⟨m, hq, hleft, hinner', hlow, hkeep _ hmn hhigh⟩, ?_⟩
        · rw [row, row, hrow, List.append_assoc, List.cons_append]
        · exact fun k _ hk => hk
      · refine ⟨_, pushed_between ⟨m, hq, hleft, hinner, hlow, hhigh⟩ ?_ hp hright hsingle⟩
        intro k hk
        rw [root, hq] at hk
        cases hk
        exact Nat.not_lt.1 hmn

theorem exists_more {row : List π} {roles : List Role} (hg : g.Grouped role)
    (h : roles ∈ (Role.joint * Role.single)∗) (hrow : row.map role = roles.map some) :
    ∃ g' : Grouping π, g'.row = g.row ++ row ∧ g'.Grouped role := by
  obtain ⟨pieces, rfl, hpieces⟩ := Language.mem_kstar.1 h
  clear h
  induction pieces generalizing g row with
  | nil => exact ⟨g, by rw [List.map_eq_nil_iff.1 hrow, List.append_nil], hg⟩
  | cons piece pieces ih =>
      rw [List.forall_mem_cons] at hpieces
      obtain ⟨_, ⟨n, rfl⟩, operands, hoperands, rfl⟩ := Language.mem_mul.1 hpieces.1
      rw [List.flatten_cons, List.append_assoc, List.singleton_append, List.map_cons,
        List.map_append] at hrow
      obtain ⟨p, _, rfl, hp, htail⟩ := List.map_eq_cons_iff.1 hrow
      obtain ⟨front, rest, rfl, hfront, hrest⟩ := List.map_eq_append_iff.1 htail
      obtain ⟨right, rfl, hright, hsingle⟩ := exists_single hoperands hfront
      obtain ⟨joined, hjoined, hgrouped, -⟩ := exists_pushed hg hp hright hsingle
      obtain ⟨g', hg', hgrouped'⟩ := ih hgrouped hpieces.2 hrest
      refine ⟨g', ?_, hgrouped'⟩
      rw [hg', hjoined, List.append_assoc, List.cons_append]

/-- A row of operands with operators before, between and behind them can be grouped. -/
theorem exists_grouped {row : List π} {roles : List Role} (h : roles ∈ Role.rows)
    (hrow : row.map role = roles.map some) : ∃ g : Grouping π, g.row = row ∧ g.Grouped role := by
  obtain ⟨first, hfirst, more, hmore, rfl⟩ := Language.mem_mul.1 h
  rw [List.map_append] at hrow
  obtain ⟨front, rest, rfl, hfront, hrest⟩ := List.map_eq_append_iff.1 hrow
  obtain ⟨g, rfl, hg, -⟩ := exists_single hfirst hfront
  exact exists_more hg hmore hrest

end Grouping

end Gsc.Peg.Pratt
