import Mathlib.Data.List.Forall2

/-! # Outcomes

Values with possible failures: when a step, a sequence of steps, or a step for every item of a list ends well, and with
which value. -/

namespace CipherGraph
variable {ε α β : Type} {e : Except ε α}

theorem toOption_eq_some_iff {a : α} : e.toOption = some a ↔ e = .ok a := by
  cases e <;> simp [Except.toOption]

@[simp] theorem toOption_pure (a : α) : (pure a : Except ε α).toOption = some a := rfl

theorem toOption_bind (e : Except ε α) (f : α → Except ε β) :
    (e >>= f).toOption = e.toOption.bind fun a => (f a).toOption := by
  cases e <;> rfl

theorem toOption_map (e : Except ε α) (f : α → β) : (e.map f).toOption = e.toOption.map f := by
  cases e <;> rfl

theorem map_eq_ok_iff {f : α → β} {b : β} : e.map f = .ok b ↔ ∃ a, e = .ok a ∧ f a = b := by
  cases e <;> simp [Except.map]

theorem mapError_eq_ok_iff {f : ε → β} {a : α} : e.mapError f = .ok a ↔ e = .ok a := by
  cases e <;> simp [Except.mapError]

theorem bind_eq_ok_iff {f : α → Except ε β} {b : β} : e >>= f = .ok b ↔ ∃ a, e = .ok a ∧ f a = .ok b := by
  cases e <;> simp [bind, Except.bind]

theorem bind_eq_error_iff {f : α → Except ε β} {x : ε} :
    e >>= f = .error x ↔ e = .error x ∨ ∃ a, e = .ok a ∧ f a = .error x := by
  cases e <;> simp [bind, Except.bind]

theorem mapM_eq_ok_iff {f : α → Except ε β} {xs : List α} {ys : List β} :
    xs.mapM f = .ok ys ↔ List.Forall₂ (fun x y => f x = .ok y) xs ys := by
  induction xs generalizing ys with
  | nil => cases ys <;> simp [pure, Except.pure]
  | cons x xs ih =>
    rw [List.mapM_cons, bind_eq_ok_iff]
    simp only [bind_eq_ok_iff, ih]
    constructor
    · rintro ⟨y, hy, ys, hys, rest⟩
      cases rest
      exact .cons hy hys
    · rintro (_ | ⟨hy, hys⟩)
      exact ⟨_, hy, _, hys, rfl⟩

/-- Where no item fails, the list does not. -/
theorem exists_mapM {f : α → Except ε β} {xs : List α} (each : ∀ x ∈ xs, ∃ y, f x = .ok y) :
    ∃ ys, xs.mapM f = .ok ys := by
  induction xs with
  | nil => exact ⟨[], rfl⟩
  | cons x xs ih =>
    obtain ⟨first, later⟩ := List.forall_mem_cons.mp each
    obtain ⟨y, hy⟩ := first
    obtain ⟨ys, hys⟩ := ih later
    exact ⟨y :: ys, mapM_eq_ok_iff.mpr (.cons hy (mapM_eq_ok_iff.mp hys))⟩

end CipherGraph
