/-
# Arrays filled cell after cell, bytes filled bit after bit

`fill r x k` is the array `r` after the stores `r[i] = x i` at the first `k`
indices; a store past the end is dropped. `getD_fill` reads it back.

`byteOf bit` sets bit `7 - k` of a byte where `bit k` says so, for `k` from 0
on: most significant bit first. `byteOf_inj` says that the byte is its bits.
-/
import Mathlib.Data.Nat.Notation
import Mathlib.Data.List.Basic

namespace Lib

/-! ### Cells -/

section Cells

variable {α : Type*} {n : ℕ}

def fill (r : Vector α n) (x : ℕ → α) : ℕ → Vector α n
  | 0 => r
  | k + 1 => (fill r x k).setIfInBounds k (x k)

theorem getD_fill (r : Vector α n) (x : ℕ → α) {i k : ℕ} (hi : i < k) (hn : i < n) (d : α) :
    (fill r x k).getD i d = x i := by
  induction k with
  | zero => exact absurd hi (Nat.not_lt_zero i)
  | succ k ih =>
    rw [fill, Vector.getD, Vector.toArray_setIfInBounds, Array.getD_eq_getD_getElem?,
      Array.getElem?_setIfInBounds]
    rcases Nat.lt_succ_iff_lt_or_eq.mp hi with h | rfl
    · rw [if_neg (Nat.ne_of_gt h), ← Array.getD_eq_getD_getElem?]
      exact ih h
    · simp [hn]

end Cells

/-! ### Bits -/

section Bits

/-- The byte with the bits, set one after the other from the top. -/
def byteOf (bit : ℕ → Bool) : UInt8 :=
  (List.range 8).foldl (fun r k => if bit k then r ||| (1 <<< (7 - k).toUInt8) else r) 0

/-- Bit `k` of a byte, the most significant one first. -/
def bitOf (b : UInt8) (k : ℕ) : Bool := b.toBitVec.getLsbD (7 - k)

theorem bitOf_or_shift (r : UInt8) {m k : ℕ} (hm : m < 8) (hk : k < 8) :
    bitOf (r ||| (1 <<< (7 - m).toUInt8)) k = (bitOf r k || decide (k = m)) := by
  have hshift : ∀ m < 8, ∀ k < 8, bitOf ((1 : UInt8) <<< (7 - m).toUInt8) k = decide (k = m) := by decide
  rw [bitOf, UInt8.toBitVec_or, BitVec.getLsbD_or]
  exact congrArg (bitOf r k || ·) (hshift m hm k hk)

/-- The byte after its first `m` bits. -/
theorem bitOf_foldl (bit : ℕ → Bool) {m k : ℕ} (hm : m ≤ 8) (hk : k < 8) :
    bitOf ((List.range m).foldl (fun r k => if bit k then r ||| (1 <<< (7 - k).toUInt8) else r) 0) k =
      (decide (k < m) && bit k) := by
  induction m with
  | zero => simp [bitOf]
  | succ m ih =>
    rw [List.range_succ, List.foldl_append, List.foldl_cons, List.foldl_nil]
    have ih := ih (Nat.le_of_succ_le hm)
    generalize (List.range m).foldl (fun r k => if bit k then r ||| (1 <<< (7 - k).toUInt8) else r) 0 = r
      at ih ⊢
    have hlt : decide (k < m + 1) = (decide (k < m) || decide (k = m)) := by
      rw [← Bool.decide_or]
      exact decide_eq_decide.mpr Nat.lt_succ_iff_lt_or_eq
    cases hb : bit m with
    | true =>
      rw [if_pos rfl, bitOf_or_shift r (Nat.lt_of_succ_le hm) hk, ih, hlt, Bool.and_or_distrib_right]
      by_cases he : k = m
      · simp [he, hb]
      · simp [he]
    | false =>
      rw [if_neg Bool.false_ne_true, ih, hlt, Bool.and_or_distrib_right]
      by_cases he : k = m
      · simp [he, hb]
      · simp [he]

theorem bitOf_byteOf (bit : ℕ → Bool) {k : ℕ} (hk : k < 8) : bitOf (byteOf bit) k = bit k := by
  rw [byteOf, bitOf_foldl bit (Nat.le_refl 8) hk, decide_eq_true hk, Bool.true_and]

/-- A byte is its bits. -/
theorem byte_ext {a b : UInt8} (h : ∀ k < 8, bitOf a k = bitOf b k) : a = b := by
  refine UInt8.toBitVec_inj.mp (BitVec.eq_of_getLsbD_eq fun i hi => ?_)
  have hk := h (7 - i) (by omega)
  rwa [bitOf, bitOf, show 7 - (7 - i) = i by omega] at hk

theorem byteOf_inj {bit bit' : ℕ → Bool} : byteOf bit = byteOf bit' ↔ ∀ k < 8, bit k = bit' k := by
  constructor
  · intro h k hk
    rw [← bitOf_byteOf bit hk, h, bitOf_byteOf bit' hk]
  · intro h
    exact byte_ext fun k hk => by rw [bitOf_byteOf bit hk, bitOf_byteOf bit' hk, h k hk]

end Bits

end Lib
