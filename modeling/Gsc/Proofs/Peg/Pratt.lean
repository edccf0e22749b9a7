import Gsc.Proofs.Except
import Gsc.Proofs.Peg.Grouping
import Mathlib.Order.Monotone.Basic

/-! # Precedence climbing gives every operator its operands

Climbing folds the grouping in which no operator takes what belongs to one that binds more: the row
of such a grouping, with anything behind it that binds less, is read as the grouping is built. So a
row has one such grouping at most.
-/

namespace Gsc.Peg.Pratt

variable {R π τ : Type} [DecidableEq R] {table : Table R} {rule : π → R} {c : Callbacks π τ}

/-! ## One step at a time -/

def run (table : Table R) (rule : π → R) (c : Callbacks π τ) (rbp : Nat) (row : List π) :
    Except String (τ × List π) :=
  (fun found => (found.1, found.2.1)) <$> expr table rule c rbp row

def goOn (table : Table R) (rule : π → R) (c : Callbacks π τ) (rbp : Nat) (lhs : τ)
    (row : List π) : Except String (τ × List π) :=
  (fun found => (found.1, found.2.1)) <$> climb table rule c rbp lhs row

variable {p : π} {rest : List π} {rbp n : Nat} {lhs : τ} {affix : Affix}

theorem parse_eq_run (row : List π) :
    parse table rule c row = Prod.fst <$> run table rule c 0 row := by
  simp [parse, run]

theorem run_operand (h : table.get? (rule p) = none) :
    run table rule c rbp (p :: rest)
      = c.operand p >>= fun value => goOn table rule c rbp value rest := by
  rw [run, expr, nud]
  simp [h, goOn]

theorem run_before (h : table.get? (rule p) = some (.before, n)) :
    run table rule c rbp (p :: rest)
      = run table rule c (n - 1) rest >>= fun found =>
          c.before p found.1 >>= fun value => goOn table rule c rbp value found.2 := by
  rw [run, expr, nud]
  simp [h, goOn, run]

theorem goOn_nil : goOn table rule c rbp lhs [] = .ok (lhs, []) := by
  rw [goOn, climb]
  rfl

theorem goOn_stop (h : table.get? (rule p) = some (affix, n)) (hn : n ≤ rbp) :
    goOn table rule c rbp lhs (p :: rest) = .ok (lhs, p :: rest) := by
  rw [goOn, climb, lbp, h]
  simp only [ok_bind, if_neg (Nat.not_lt.2 hn)]
  rfl

theorem goOn_behind (h : table.get? (rule p) = some (.behind, n)) (hn : rbp < n) :
    goOn table rule c rbp lhs (p :: rest)
      = c.behind lhs p >>= fun value => goOn table rule c rbp value rest := by
  rw [goOn, climb, lbp, h, led]
  simp [h, hn, goOn]

theorem goOn_between (h : table.get? (rule p) = some (.between .left, n)) (hn : rbp < n) :
    goOn table rule c rbp lhs (p :: rest)
      = run table rule c n rest >>= fun found =>
          c.between lhs p found.1 >>= fun value => goOn table rule c rbp value found.2 := by
  rw [goOn, climb, lbp, h, led]
  simp [h, hn, goOn, run]

/-! ## Climbing folds a grouping -/

/-- The table lists elements by their roles: what stands between two operands by rank, what stands
before one above all of these, and what stands behind one above all others. -/
structure Layered (table : Table R) (rule : π → R) (role : π → Option Role) (prec : Nat → Nat)
    (top : Nat) : Prop where
  mono : StrictMono prec
  pos : ∀ n, 0 < prec n
  operand : ∀ {p}, role p = some .operand → table.get? (rule p) = none
  before : ∀ {p}, role p = some .before → table.get? (rule p) = some (.before, top)
  behind : ∀ {p}, role p = some .behind → ∃ n, top < n ∧ table.get? (rule p) = some (.behind, n)
  between : ∀ {p n}, role p = some (.between n) →
    prec n < top ∧ table.get? (rule p) = some (.between .left, prec n)

/-- Nothing that binds more than `n` comes next. -/
def Stops (table : Table R) (rule : π → R) (n : Nat) : List π → Prop
  | [] => True
  | p :: _ => ∃ affix m, table.get? (rule p) = some (affix, m) ∧ m ≤ n

theorem Stops.mono {m : Nat} (h : Stops table rule n rest) (hm : n ≤ m) :
    Stops table rule m rest := by
  cases rest with
  | nil => trivial
  | cons p rest =>
      obtain ⟨affix, k, hk, hle⟩ := h
      exact ⟨affix, k, hk, Nat.le_trans hle hm⟩

theorem goOn_of_stops (h : Stops table rule rbp rest) :
    goOn table rule c rbp lhs rest = .ok (lhs, rest) := by
  cases rest with
  | nil => exact goOn_nil
  | cons p rest =>
      obtain ⟨affix, n, hp, hn⟩ := h
      exact goOn_stop hp hn

/-- What follows a grouping leaves its last operand alone. -/
def Leaves (table : Table R) (rule : π → R) (role : π → Option Role) (prec : Nat → Nat) (top : Nat)
    (g : Grouping π) (rest : List π) : Prop :=
  match role g.root with
  | some .before => Stops table rule (top - 1) rest
  | some (.between n) => Stops table rule (prec n) rest
  | _ => True

section

variable {role : π → Option Role} {prec : Nat → Nat} {top : Nat} {g : Grouping π}

theorem leaves_of_stops {k : Nat} (hrest : Stops table rule k rest) (hk : k < top)
    (hg : ∀ m, role g.root = some (.between m) → k ≤ prec m) :
    Leaves table rule role prec top g rest := by
  unfold Leaves
  split
  · exact hrest.mono (Nat.le_sub_one_of_lt hk)
  · exact hrest.mono (hg _ ‹_›)
  · trivial

namespace Layered

variable (h : Layered table rule role prec top)

include h

theorem stops_between {k : Nat} (hp : role p = some (.between n)) (hk : prec n ≤ k) :
    Stops table rule k (p :: rest) :=
  ⟨_, _, (h.between hp).2, hk⟩

/-- Climbing reads the row of a grouping as the grouping, and goes on with what follows. -/
theorem run_row (hg : g.Grouped role) (hrbp : rbp < top)
    (hroot : ∀ n, role g.root = some (.between n) → rbp < prec n)
    (hrest : Leaves table rule role prec top g rest) :
    run table rule c rbp (g.row ++ rest)
      = g.fold c >>= fun value => goOn table rule c rbp value rest := by
  induction g generalizing rbp rest with
  | operand p =>
      have hp : role p = some .operand := hg
      exact run_operand (h.operand hp)
  | before p inner ih =>
      obtain ⟨hp, hinner, hsingle⟩ := hg
      have hstop : Stops table rule (top - 1) rest := by
        rw [Leaves, Grouping.root, hp] at hrest
        exact hrest
      have hbelow : top - 1 < top := by omega
      have hread := ih hinner hbelow (fun n hn => absurd hn (hsingle n))
        (leaves_of_stops hstop hbelow fun n hn => absurd hn (hsingle n))
      rw [Grouping.row, List.cons_append, run_before (h.before hp), hread, Grouping.fold,
        bind_assoc, bind_assoc]
      simp only [goOn_of_stops hstop, ok_bind]
  | between left p right ihleft ihright =>
      obtain ⟨n, hp, hleft, hright, hlow, hhigh⟩ := hg
      obtain ⟨htop, hentry⟩ := h.between hp
      have hn : rbp < prec n := hroot n hp
      have hstop : Stops table rule (prec n) rest := by
        rw [Leaves, Grouping.root, hp] at hrest
        exact hrest
      have hranks : ∀ m, role left.root = some (.between m) → prec n ≤ prec m := fun m hm =>
        h.mono.monotone (hlow m hm)
      have hranks' : ∀ m, role right.root = some (.between m) → prec n < prec m := fun m hm =>
        h.mono (hhigh m hm)
      have hreadLeft : run table rule c rbp (left.row ++ p :: (right.row ++ rest)) = _ :=
        ihleft hleft hrbp (fun m hm => Nat.lt_of_lt_of_le hn (hranks m hm))
          (leaves_of_stops (h.stops_between hp (Nat.le_refl _)) htop hranks)
      have hreadRight := ihright hright htop hranks'
        (leaves_of_stops hstop htop fun m hm => Nat.le_of_lt (hranks' m hm))
      rw [Grouping.row, List.append_assoc, List.cons_append, hreadLeft, Grouping.fold, bind_assoc]
      simp only [goOn_between hentry hn, hreadRight, bind_assoc, goOn_of_stops hstop, ok_bind]
  | behind base p ih =>
      obtain ⟨hp, hbase, hsingle, hbefore⟩ := hg
      obtain ⟨n, hn, hentry⟩ := h.behind hp
      have hfree : Leaves table rule role prec top base (p :: rest) := by
        unfold Leaves
        split
        · exact absurd ‹_› hbefore
        · exact absurd ‹_› (hsingle _)
        · trivial
      have hread := ih hbase hrbp (fun m hm => absurd hm (hsingle m)) hfree
      rw [Grouping.row, List.append_assoc, List.singleton_append, hread, Grouping.fold, bind_assoc]
      simp only [goOn_behind hentry (Nat.lt_trans hrbp hn)]

/-- Climbing a whole row folds its grouping, whatever the callbacks are. -/
theorem parse_row (htop : 0 < top) (hg : g.Grouped role) (c : Callbacks π τ) :
    parse table rule c g.row = g.fold c := by
  have hread : run table rule c 0 (g.row ++ []) = _ := h.run_row hg htop (fun n _ => h.pos n)
    (leaves_of_stops (k := 0) trivial htop fun m _ => Nat.zero_le _)
  rw [List.append_nil] at hread
  rw [parse_eq_run, hread]
  simp only [goOn_nil]
  cases g.fold c <;> rfl

omit h in
/-- Callbacks that put the grouping together again. -/
def regroup (π : Type) : Callbacks π (Grouping π) where
  operand p := .ok (.operand p)
  before p inner := .ok (.before p inner)
  behind base p := .ok (.behind base p)
  between left p right := .ok (.between left p right)
  describe _ := ""

omit h in
theorem fold_regroup (g : Grouping π) : g.fold (regroup π) = .ok g := by
  induction g with
  | operand p => rfl
  | before p inner ih => rw [Grouping.fold, ih]; rfl
  | between left p right ihleft ihright => rw [Grouping.fold, ihleft, ihright]; rfl
  | behind base p ih => rw [Grouping.fold, ih]; rfl

/-- A row has one grouping at most, since climbing finds it. -/
theorem eq_of_row (htop : 0 < top) {g' : Grouping π} (hg : g.Grouped role)
    (hg' : g'.Grouped role) (hrow : g.row = g'.row) : g = g' := by
  have hsame := (h.parse_row htop hg (regroup π)).symm.trans
    (hrow ▸ h.parse_row htop hg' (regroup π))
  rw [fold_regroup, fold_regroup] at hsame
  exact Except.ok.inj hsame

end Layered

end

end Gsc.Peg.Pratt
