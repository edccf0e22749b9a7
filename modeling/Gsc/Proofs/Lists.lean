import Mathlib.Data.List.Forall2

/-! # Facts about lists

Elements of prefixes and of lists that are related element by element, and parts of lists.
-/

namespace Gsc

variable {α β : Type}

theorem getElem?_of_prefix {front whole : List α} {i : Nat} {a : α}
    (h : front <+: whole) (hi : front[i]? = some a) : whole[i]? = some a := by
  obtain ⟨back, rfl⟩ := h
  rw [List.getElem?_append_left (List.getElem?_eq_some_iff.1 hi).1, hi]

/-- The items from `start` up to `stop`, if these are places of the list in order. -/
def slice? (items : List α) (start stop : Nat) : Option (List α) :=
  if start ≤ stop ∧ stop ≤ items.length then some ((items.take stop).drop start) else none

theorem slice?_add {items : List α} {start width : Nat} (h : start + width ≤ items.length) :
    slice? items start (start + width) = some ((items.drop start).take width) := by
  rw [slice?, if_pos ⟨Nat.le_add_right start width, h⟩, List.drop_take, Nat.add_sub_cancel_left]

theorem filterMap_cons_eq_append (f : α → Option β) (a : α) (rest : List α) :
    (a :: rest).filterMap f = (f a).toList ++ rest.filterMap f := by
  rw [List.filterMap_cons]
  cases f a <;> rfl

section

variable {R : α → β → Prop} {as : List α} {bs : List β}

theorem exists_of_forall₂_right (h : List.Forall₂ R as bs) {b : β} (hb : b ∈ bs) :
    ∃ a ∈ as, R a b := by
  obtain ⟨i, hi, rfl⟩ := List.mem_iff_getElem.1 hb
  have hi' : i < as.length := h.length_eq ▸ hi
  exact ⟨as[i], List.getElem_mem hi', h.get hi' hi⟩

theorem exists_getElem?_of_forall₂ (h : List.Forall₂ R as bs) {k : Nat} {a : α}
    (ha : as[k]? = some a) : ∃ b, bs[k]? = some b ∧ R a b := by
  obtain ⟨hk, rfl⟩ := List.getElem?_eq_some_iff.1 ha
  have hk' : k < bs.length := h.length_eq ▸ hk
  exact ⟨bs[k], List.getElem?_eq_getElem hk', h.get hk hk'⟩

end

end Gsc
