/-
# Tables with an auto-increment key and unique columns

A table is a list of rows and the next key. Two of its rows have different keys
and do not clash in a unique column, and all keys are below the next one: the
table carries the proofs. `insert` and `update` refuse a row that clashes.

Read by key (`get`), an insert, an update and a delete are updates of one point
(`get_insert`, `get_update`, `get_delete`).
-/
import Mathlib.Data.List.Basic
import Mathlib.Logic.Function.Basic

namespace Lib

/-- The key of a row, and when two rows clash in a unique column. -/
structure Schema (ρ : Type*) where
  key : ρ → ℕ
  clash : ρ → ρ → Bool
  clash_comm : ∀ a b, clash a b = clash b a

/-- Two rows that can stand in one table. -/
def Schema.Fit {ρ : Type*} (sc : Schema ρ) (a b : ρ) : Prop := sc.key a ≠ sc.key b ∧ sc.clash a b = false

structure Table {ρ : Type*} (sc : Schema ρ) where
  rows : List ρ
  next : ℕ
  fit : rows.Pairwise sc.Fit
  bound : ∀ r ∈ rows, sc.key r < next

namespace Table

variable {ρ : Type*} {sc : Schema ρ}

def empty : Table sc := ⟨[], 0, .nil, nofun⟩

/-- The row with the key. -/
def get (t : Table sc) (k : ℕ) : Option ρ := t.rows.find? fun r => sc.key r == k

theorem get_key {t : Table sc} {k : ℕ} {r : ρ} (h : t.get k = some r) : sc.key r = k := by
  simpa using List.find?_some h

/-- No row has a key from the next one on. -/
theorem get_eq_none (t : Table sc) {k : ℕ} (h : t.next ≤ k) : t.get k = none := by
  refine List.find?_eq_none.mpr fun r hr hk => ?_
  have := t.bound r hr
  rw [beq_iff_eq] at hk
  omega

/-! ### Insert -/

/-- A new row under a key from the next one on: `gap` keys may have been lost to
inserts that failed. -/
def insert (t : Table sc) (gap : ℕ) (mk : ℕ → ρ) (hmk : ∀ k, sc.key (mk k) = k) : Option (Table sc) :=
  if h : ∀ r ∈ t.rows, sc.clash r (mk (t.next + gap)) = false then
    some {
      rows := t.rows ++ [mk (t.next + gap)]
      next := t.next + gap + 1
      fit := by
        refine List.pairwise_append.mpr ⟨t.fit, List.pairwise_singleton _ _, fun r hr x hx => ?_⟩
        rw [List.mem_singleton.mp hx]
        refine ⟨?_, h r hr⟩
        have := t.bound r hr
        rw [hmk]
        omega
      bound := by
        intro r hr
        rcases List.mem_append.mp hr with hr | hr
        · have := t.bound r hr
          omega
        · rw [List.mem_singleton.mp hr, hmk]
          omega }
  else none

theorem get_insert {t t' : Table sc} {gap : ℕ} {mk : ℕ → ρ} {hmk : ∀ k, sc.key (mk k) = k}
    (h : t.insert gap mk hmk = some t') :
    t'.get = Function.update t.get (t.next + gap) (some (mk (t.next + gap))) := by
  rw [insert] at h
  split at h
  · obtain rfl := Option.some.inj h
    funext k
    by_cases hk : k = t.next + gap
    · subst hk
      have hn := t.get_eq_none (Nat.le_add_right t.next gap)
      rw [Function.update_self, get, List.find?_append]
      rw [get] at hn
      simp [hn, hmk]
    · rw [Function.update_of_ne hk, get, get, List.find?_append]
      have hne : (sc.key (mk (t.next + gap)) == k) = false := by
        rw [hmk]
        exact beq_false_of_ne (Ne.symm hk)
      simp [hne]
  · cases h

/-! ### Update -/

/-- The row in place of the one with its key. -/
def replace (sc : Schema ρ) (r x : ρ) : ρ := if sc.key x = sc.key r then r else x

theorem key_replace (r x : ρ) : sc.key (replace sc r x) = sc.key x := by
  unfold replace
  split
  · exact Eq.symm ‹_›
  · rfl

def update (t : Table sc) (r : ρ) : Option (Table sc) :=
  if h : ∀ x ∈ t.rows, sc.key x ≠ sc.key r → sc.clash x r = false then
    some {
      rows := t.rows.map (replace sc r)
      next := t.next
      fit := by
        refine List.pairwise_map.mpr (t.fit.imp_of_mem fun {x y} hx hy hxy => ?_)
        refine ⟨by rw [key_replace, key_replace]; exact hxy.1, ?_⟩
        unfold replace
        by_cases hx' : sc.key x = sc.key r <;> by_cases hy' : sc.key y = sc.key r
        · exact absurd (hx'.trans hy'.symm) hxy.1
        · rw [if_pos hx', if_neg hy', sc.clash_comm]
          exact h y hy hy'
        · rw [if_neg hx', if_pos hy']
          exact h x hx hx'
        · rw [if_neg hx', if_neg hy']
          exact hxy.2
      bound := by
        intro x hx
        obtain ⟨y, hy, rfl⟩ := List.mem_map.mp hx
        rw [key_replace]
        exact t.bound y hy }
  else none

theorem get_update {t t' : Table sc} {r : ρ} (h : t.update r = some t') (hr : (t.get (sc.key r)).isSome) :
    t'.get = Function.update t.get (sc.key r) (some r) := by
  rw [update] at h
  split at h
  · obtain rfl := Option.some.inj h
    funext k
    have hkey : (fun x => sc.key (replace sc r x) == k) = fun x => sc.key x == k := by
      funext x
      rw [key_replace]
    rw [get, List.find?_map, Function.comp_def, hkey]
    obtain ⟨old, hold⟩ := Option.isSome_iff_exists.mp hr
    by_cases hk : k = sc.key r
    · subst hk
      rw [Function.update_self]
      rw [get] at hold
      rw [hold, Option.map_some, replace, if_pos (get_key hold)]
    · rw [Function.update_of_ne hk]
      cases hg : t.get k with
      | none => rw [get] at hg; rw [hg, Option.map_none]
      | some x =>
        have hx := get_key hg
        rw [get] at hg
        rw [hg, Option.map_some, replace, if_neg (hx ▸ hk)]
  · cases h

/-! ### Delete -/

def delete (t : Table sc) (k : ℕ) : Table sc where
  rows := t.rows.filter fun r => sc.key r != k
  next := t.next
  fit := t.fit.filter _
  bound r hr := t.bound r (List.mem_of_mem_filter hr)

theorem get_delete (t : Table sc) (k : ℕ) : (t.delete k).get = Function.update t.get k none := by
  funext j
  rw [get, delete, List.find?_filter]
  by_cases hj : j = k
  · subst hj
    rw [Function.update_self]
    refine List.find?_eq_none.mpr fun r _ hr => ?_
    simp at hr
  · rw [Function.update_of_ne hj, get]
    refine congrArg (fun p => t.rows.find? p) (funext fun r => ?_)
    by_cases hr : sc.key r = j
    · simp [hr, hj]
    · simp [hr]

end Table
end Lib
