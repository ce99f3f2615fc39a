/-
# Linked lists in memory

The lists that a memory of next pointers holds. `IsList next head ps`: from `head` on, the
pointers lead through the cells `ps` and end there. `IsQueue` has a pointer to the last cell
beside it; that of an empty queue may be stale. A write to another cell leaves a queue as it
is (`IsQueue.update`); a cell is taken from its front (`IsQueue.pop`), put before it
(`IsQueue.cons`), or behind it (`IsQueue.push`, and `IsQueue.single` where it was empty).
-/
import Mathlib.Data.List.Basic
import Mathlib.Logic.Function.Basic

namespace Lib
namespace Linked

variable {α : Type*} {next : α → Option α} {head last : Option α} {ps : List α}

/-- From `head` on, the pointers lead through `ps`. -/
def IsList (next : α → Option α) : Option α → List α → Prop
  | head, [] => head = none
  | head, p :: ps => head = some p ∧ IsList next (next p) ps

/-- A list of different cells, with a pointer to the last one. -/
structure IsQueue (next : α → Option α) (head last : Option α) (ps : List α) : Prop where
  list : IsList next head ps
  last : ∀ p, ps.getLast? = some p → last = some p
  nodup : ps.Nodup

theorem IsQueue.empty (next : α → Option α) (last : Option α) : IsQueue next none last [] where
  list := rfl
  last := fun _ h => absurd h.symm (Option.some_ne_none _)
  nodup := List.nodup_nil

theorem IsQueue.head_eq (h : IsQueue next head last ps) : head = ps.head? := by
  have hlist := h.list
  cases ps with
  | nil => exact hlist
  | cons p ps => exact hlist.1

theorem IsQueue.isNone_head (h : IsQueue next head last ps) : head.isNone = ps.isEmpty := by
  rw [h.head_eq]
  cases ps with
  | nil => rfl
  | cons p ps => rfl

/-- The first cell is taken. -/
theorem IsQueue.pop {p : α} (h : IsQueue next head last (p :: ps)) : IsQueue next (next p) last ps where
  list := h.list.2
  last := by
    intro q hq
    apply h.last q
    rw [List.getLast?_cons, hq, Option.getD_some]
  nodup := h.nodup.of_cons

variable [DecidableEq α]

theorem IsList.update {p : α} (h : IsList next head ps) (hp : p ∉ ps) (v : Option α) :
    IsList (Function.update next p v) head ps := by
  induction ps generalizing head with
  | nil => exact h
  | cons q ps ih =>
    rw [List.mem_cons, not_or] at hp
    refine ⟨h.1, ?_⟩
    rw [Function.update_of_ne (Ne.symm hp.1)]
    exact ih h.2 hp.2

/-- A write to another cell. -/
theorem IsQueue.update {p : α} (h : IsQueue next head last ps) (hp : p ∉ ps) (v : Option α) :
    IsQueue (Function.update next p v) head last ps :=
  ⟨h.list.update hp v, h.last, h.nodup⟩

/-- A cell alone. -/
theorem IsQueue.single (next : α → Option α) (p : α) : IsQueue (Function.update next p none) (some p) (some p) [p] where
  list := by
    refine ⟨rfl, ?_⟩
    rw [Function.update_self]
    exact rfl
  last := fun _ h => h
  nodup := List.pairwise_singleton _ p

/-- A cell is put before the first; where there was none, the pointer to the last has to be the cell's. -/
theorem IsQueue.cons {p : α} (h : IsQueue next head last ps) (hp : p ∉ ps) (hlast : ps = [] → last = some p) :
    IsQueue (Function.update next p head) (some p) last (p :: ps) where
  list := by
    refine ⟨rfl, ?_⟩
    rw [Function.update_self]
    exact h.list.update hp head
  last := by
    intro q hq
    rw [List.getLast?_cons] at hq
    cases hps : ps.getLast? with
    | none =>
      rw [hps, Option.getD_none] at hq
      rw [hlast (List.getLast?_eq_none_iff.mp hps), hq]
    | some r =>
      rw [hps, Option.getD_some] at hq
      rw [h.last r hps, hq]
  nodup := List.nodup_cons.mpr ⟨hp, h.nodup⟩

theorem IsList.push {qs : List α} {t p : α} (h : IsList next head (qs ++ [t])) (ht : t ∉ qs) (hp : p ∉ qs ++ [t]) :
    IsList (Function.update (Function.update next t (some p)) p none) head (qs ++ [t] ++ [p]) := by
  induction qs generalizing head with
  | nil =>
    have hne : t ≠ p := fun he => hp (he ▸ List.mem_singleton_self t)
    refine ⟨h.1, ?_, ?_⟩
    · rw [Function.update_of_ne hne, Function.update_self]
    · rw [Function.update_self]
      exact rfl
  | cons q qs ih =>
    rw [List.mem_cons, not_or] at ht
    rw [List.cons_append, List.mem_cons, not_or] at hp
    refine ⟨h.1, ?_⟩
    rw [Function.update_of_ne (Ne.symm hp.1), Function.update_of_ne (Ne.symm ht.1)]
    exact ih h.2 ht.2 hp.2

/-- A cell is put behind the last. -/
theorem IsQueue.push {p : α} (h : IsQueue next head last ps) (hps : ps ≠ []) (hp : p ∉ ps) :
    ∃ t, last = some t ∧ t ∈ ps ∧
      IsQueue (Function.update (Function.update next t (some p)) p none) head (some p) (ps ++ [p]) := by
  obtain ⟨qs, t, rfl⟩ := List.eq_nil_or_concat ps |>.resolve_left hps
  rw [List.concat_eq_append] at h hp ⊢
  obtain ⟨-, -, hdisj⟩ := List.nodup_append.mp h.nodup
  have ht : t ∉ qs := fun hmem => hdisj t hmem t (List.mem_singleton_self t) rfl
  refine ⟨t, h.last t List.getLast?_concat, List.mem_append_right qs (List.mem_singleton_self t), ?_, ?_, ?_⟩
  · exact h.list.push ht hp
  · intro q hq
    rw [List.getLast?_concat] at hq
    exact hq
  · refine List.nodup_append.mpr ⟨h.nodup, List.pairwise_singleton _ p, ?_⟩
    rintro a ha b hb rfl
    exact hp (List.mem_singleton.mp hb ▸ ha)

end Linked
end Lib
