/-
# Loops that may raise

A loop that builds a list, one element from each of another list, is `List.mapM`
in `Option`: `none` where its body raises. What it builds stands element by
element in the relation of the body.
-/
import Mathlib.Data.List.Forall2

namespace Lib

/-- A loop that raises nowhere does its body for each. -/
theorem mapM_eq_some_iff {α β : Type*} (f : α → Option β) (xs : List α) (ys : List β) :
    xs.mapM f = some ys ↔ List.Forall₂ (fun x y => f x = some y) xs ys := by
  induction xs generalizing ys with
  | nil =>
    rw [List.mapM_nil]
    constructor
    · intro h
      obtain rfl := Option.some.inj h
      exact .nil
    · intro h
      cases h
      rfl
  | cons x xs ih =>
    rw [List.mapM_cons]
    simp only [Option.bind_eq_bind, Option.bind_eq_some_iff, Option.pure_def, Option.some.injEq]
    constructor
    · rintro ⟨y, hy, zs, hzs, rfl⟩
      exact .cons hy ((ih zs).mp hzs)
    · rintro (_ | ⟨hy, hzs⟩)
      exact ⟨_, hy, _, (ih _).mpr hzs, rfl⟩

/-- Each element is related to one, together they are to a list. -/
theorem exists_forall₂_iff {α β : Type*} {R : α → β → Prop} (xs : List α) :
    (∃ ys, List.Forall₂ R xs ys) ↔ ∀ x ∈ xs, ∃ y, R x y := by
  induction xs with
  | nil => exact iff_of_true ⟨[], .nil⟩ fun x hx => absurd hx List.not_mem_nil
  | cons x xs ih =>
    rw [List.forall_mem_cons, ← ih]
    constructor
    · rintro ⟨_, _ | ⟨hy, hys⟩⟩
      exact ⟨⟨_, hy⟩, _, hys⟩
    · rintro ⟨⟨y, hy⟩, ys, hys⟩
      exact ⟨y :: ys, .cons hy hys⟩

theorem mapM_eq_some_iff_map {α β : Type*} (f : α → Option β) (xs : List α) (ys : List β) :
    xs.mapM f = some ys ↔ xs.map f = ys.map some := by
  rw [mapM_eq_some_iff, ← List.forall₂_eq_eq_eq, List.forall₂_map_left_iff, List.forall₂_map_right_iff]

end Lib
