import Gsc.Data.Fault

/-! # Computations that may fail, taken apart

A chain of steps gives a result exactly if each of its steps does, and an error if one of them does.
-/

namespace Gsc

variable {ε α β : Type}

@[simp] theorem ok_bind (a : α) (f : α → Except ε β) : (Except.ok a >>= f) = f a := rfl

@[simp] theorem mapError_ok {ε' : Type} (f : ε → ε') (a : α) :
    (Except.ok a).mapError f = .ok a := rfl

@[simp] theorem error_bind (e : ε) (f : α → Except ε β) :
    (Except.error e >>= f) = .error e := rfl

theorem bind_eq_ok {x : Except ε α} {f : α → Except ε β} {b : β} :
    x >>= f = .ok b ↔ ∃ a, x = .ok a ∧ f a = .ok b := by
  cases x with
  | error e =>
      constructor
      · intro h
        cases h
      · rintro ⟨a, ha, -⟩
        cases ha
  | ok a =>
      constructor
      · intro h
        exact ⟨a, rfl, h⟩
      · rintro ⟨a', ha, hf⟩
        cases ha
        exact hf

/-- Where it does not matter for the second step what the first one gave, one of the two fails. -/
theorem exists_error_bind_iff {x : Except ε α} {f : α → Except ε β} {Q : Prop}
    (hf : ∀ a, (∃ e, f a = .error e) ↔ Q) :
    (∃ e, x >>= f = .error e) ↔ (∃ e, x = .error e) ∨ Q := by
  cases x with
  | error e => exact ⟨fun _ => .inl ⟨e, rfl⟩, fun _ => ⟨e, rfl⟩⟩
  | ok a =>
      refine (hf a).trans ⟨.inr, ?_⟩
      rintro (⟨e, he⟩ | hq)
      · cases he
      · exact hq

theorem eq_ok_of_toOption {x : Except ε α} {a : α} (h : x.toOption = some a) : x = .ok a := by
  cases x with
  | error e => cases h
  | ok b =>
      cases h
      rfl

theorem exists_ok_of_any {x : Except ε α} {p : α → Bool} (h : x.toOption.any p = true) :
    ∃ a, x = .ok a ∧ p a = true := by
  cases x with
  | error e => cases h
  | ok a => exact ⟨a, rfl, h⟩

def errorOf? : Except ε α → Option ε
  | .error e => some e
  | .ok _ => none

theorem eq_error_of_errorOf? {x : Except ε α} {e : ε} (h : errorOf? x = some e) : x = .error e := by
  cases x with
  | error e' =>
      cases h
      rfl
  | ok a => cases h

/-- Whatever is reported is one of the given errors. -/
def FailsWith (P : ε → Prop) (x : Except (Fault ε) α) : Prop := ∀ e, x = .error (.error e) → P e

namespace FailsWith

variable {P : ε → Prop}

theorem ok (a : α) : FailsWith P (.ok a : Except (Fault ε) α) := by
  intro e h
  cases h

theorem bind {x : Except (Fault ε) α} {f : α → Except (Fault ε) β} (hx : FailsWith P x)
    (hf : ∀ a, FailsWith P (f a)) : FailsWith P (x >>= f) := by
  intro e h
  cases x with
  | error fault =>
      cases h
      exact hx e rfl
  | ok a => exact hf a e h

end FailsWith

/-- The first of some errors is reported, or a result comes out if there are none. -/
def Reports (errors : List ε) (x : Except (Fault ε) α) : Prop :=
  match errors with
  | [] => ∃ a, x = .ok a
  | e :: _ => x = .error (.error e)

namespace Reports

variable {errors more : List ε} {x : Except (Fault ε) α} {f : α → Except (Fault ε) β}

theorem ok (a : α) : Reports [] (.ok a : Except (Fault ε) α) := ⟨a, rfl⟩

/-- The errors of a step come before those of the step behind it. -/
theorem bind (hx : Reports errors x) (hf : ∀ a, x = .ok a → Reports more (f a)) :
    Reports (errors ++ more) (x >>= f) := by
  cases errors with
  | nil =>
      obtain ⟨a, rfl⟩ := hx
      exact hf a rfl
  | cons e rest =>
      cases hx
      rfl

/-- A step behind that cannot fail adds no errors. -/
theorem bind_of_ok (hx : Reports errors x) (hf : ∀ a, x = .ok a → ∃ b, f a = .ok b) :
    Reports errors (x >>= f) := by
  have h : Reports (errors ++ []) (x >>= f) := hx.bind hf
  rwa [List.append_nil] at h

theorem bind_ok (hx : Reports errors x) (g : α → β) :
    Reports errors (x >>= fun a => .ok (g a)) :=
  hx.bind_of_ok fun a _ => ⟨g a, rfl⟩

theorem eq_error_iff (hx : Reports errors x) (fault : Fault ε) :
    x = .error fault ↔ errors.head?.map .error = some fault := by
  cases errors with
  | nil =>
      obtain ⟨a, rfl⟩ := hx
      simp
  | cons first rest =>
      cases hx
      simp

end Reports

end Gsc
