/-
# What the text of a temperature says

mainTask writes a temperature as `"TEMP:%d,%d"` of `(int)T` and
`(int)((T - (int)T)*100)`. C truncates toward zero, so both parts of a negative
temperature carry its sign: -10.1 becomes `TEMP:-10,-10`, and -0.5 `TEMP:0,-50`.

* `text_denotes_iff`: the text of a temperature in tenths of a degree is a
  decimal number with a comma that denotes it, exactly when it is not negative
  or a whole number of degrees.
-/
import Mathlib.Data.Rat.Floor
import Netacademia.Lib.Decimal
import Netacademia.Report

namespace Netacademia
namespace Celsius

open Lib Dht Firmware Report

/-- The temperature that a text denotes, read with a decimal comma. -/
def denoted : List Char → Option ℚ
  | 'T' :: 'E' :: 'M' :: 'P' :: ':' :: cs => readDecimal ',' cs
  | _ => none

/-! ### The two parts -/

theorem trunc_of_nonneg {x : ℚ} (h : 0 ≤ x) : trunc x = ⌊x⌋ := by
  rw [trunc, Int.tdiv_eq_ediv_of_nonneg (Rat.num_nonneg.mpr h)]
  exact (Rat.floor_def' (q := x)).symm

theorem trunc_neg (x : ℚ) : trunc (-x) = -trunc x := by
  rw [trunc, trunc, Rat.neg_num, Rat.neg_den, Int.neg_tdiv]

theorem trunc_intCast (n : ℤ) : trunc n = n := by
  rw [trunc, Rat.num_intCast, Rat.den_intCast, Nat.cast_one, Int.tdiv_one]

/-- The whole degrees of a number of tenths. -/
theorem trunc_tenths (k : ℤ) : trunc (k / 10) = k.tdiv 10 := by
  have hnat : ∀ n : ℕ, trunc (((n : ℤ) : ℚ) / 10) = (n : ℤ).tdiv 10 := by
    intro n
    have hfloor : ⌊((n : ℤ) : ℚ) / (10 : ℕ)⌋ = (n : ℤ) / (10 : ℕ) := Rat.floor_intCast_div_natCast n 10
    rw [trunc_of_nonneg (by positivity), Int.tdiv_eq_ediv_of_nonneg (Int.natCast_nonneg n)]
    exact hfloor
  rcases Int.eq_nat_or_neg k with ⟨n, rfl | rfl⟩
  · exact hnat n
  · rw [Int.cast_neg, neg_div, trunc_neg, hnat, Int.neg_tdiv]

/-- The text of a number of tenths: the whole degrees and the hundredths. -/
theorem sprintfReading_tenths (k : ℤ) :
    sprintfReading (k / 10) = intText (k.tdiv 10) ++ ',' :: intText (10 * k.tmod 10) := by
  have hk : 10 * k.tdiv 10 + k.tmod 10 = k := Int.mul_tdiv_add_tmod k 10
  have hfrac : ((k : ℚ) / 10 - ((k.tdiv 10 : ℤ) : ℚ)) * 100 = ((10 * k.tmod 10 : ℤ) : ℚ) := by
    have hq : (10 : ℚ) * (k.tdiv 10 : ℤ) + (k.tmod 10 : ℤ) = k := by exact_mod_cast hk
    rw [← hq]
    push_cast
    ring
  rw [sprintfReading, trunc_tenths, hfrac, trunc_intCast, List.append_assoc, List.singleton_append]

/-! ### Reading it -/

/-- Hundredths from a digit are read as tenths. -/
theorem hundredths (d : Fin 10) :
    (((10 * (d : ℕ) : ℕ) : ℚ) / 10 ^ (decimal (10 * d)).length) = ((d : ℕ) : ℚ) / 10 := by
  have hlen : ∀ d : Fin 10, (decimal (10 * d)).length = if d = 0 then 1 else 2 := by decide
  rw [hlen]
  by_cases h : d = 0
  · simp [h]
  · rw [if_neg h]
    push_cast
    ring

/-- The whole degrees and the tenths behind them, where these are a digit. -/
theorem tenths_digit {k : ℤ} (h : 0 ≤ k.tmod 10) :
    ∃ d : Fin 10, k.tmod 10 = ((d : ℕ) : ℤ) ∧ (k : ℚ) / 10 = (k.tdiv 10 : ℤ) + ((d : ℕ) : ℚ) / 10 := by
  have hk : 10 * k.tdiv 10 + k.tmod 10 = k := Int.mul_tdiv_add_tmod k 10
  have hlt : k.tmod 10 < 10 := Int.tmod_lt_of_pos k (by decide)
  obtain ⟨d, hd⟩ : ∃ d : Fin 10, k.tmod 10 = ((d : ℕ) : ℤ) :=
    ⟨⟨(k.tmod 10).toNat, by omega⟩, by simp only; omega⟩
  have hcast : (10 : ℚ) * (k.tdiv 10 : ℤ) + (d : ℕ) = k := by
    rw [hd] at hk
    exact_mod_cast hk
  refine ⟨d, hd, ?_⟩
  rw [← hcast]
  ring

/-- Below zero the tenths are negative, so they are a digit only where they are 0. -/
theorem tmod_eq_zero {k : ℤ} (h : 0 ≤ k.tmod 10) (hneg : k.tdiv 10 < 0) : k.tmod 10 = 0 := by
  have hk : 10 * k.tdiv 10 + k.tmod 10 = k := Int.mul_tdiv_add_tmod k 10
  have hlt : k.tmod 10 < 10 := Int.tmod_lt_of_pos k (by decide)
  have hle : 0 ≤ (-k).tmod 10 := Int.tmod_nonneg 10 (by omega)
  rw [Int.neg_tmod] at hle
  omega

theorem denoted_tempText_eq (k : ℤ) :
    denoted (tempText (k / 10)) = readDecimal ',' (intText (k.tdiv 10) ++ ',' :: intText (10 * k.tmod 10)) := by
  rw [tempText, sprintfReading_tenths]
  rfl

theorem denoted_tempText (k : ℤ) :
    denoted (tempText (k / 10)) = if 0 ≤ k ∨ 10 ∣ k then some (k / 10 : ℚ) else none := by
  have hk : 10 * k.tdiv 10 + k.tmod 10 = k := Int.mul_tdiv_add_tmod k 10
  rw [denoted_tempText_eq]
  by_cases hr : k.tmod 10 < 0
  · -- the hundredths carry the sign
    have hneg : ¬ (0 ≤ k ∨ 10 ∣ k) := by
      rintro (h | h)
      · exact absurd (Int.tmod_nonneg 10 h) (not_le.mpr hr)
      · exact hr.ne (Int.tmod_eq_zero_of_dvd h)
    obtain ⟨m, hm⟩ : ∃ m, 10 * k.tmod 10 = Int.negSucc m := Int.eq_negSucc_of_lt_zero (by omega)
    rw [if_neg hneg, hm]
    exact readDecimal_minus (by decide) _ _
  · obtain ⟨d, hd, hq⟩ := tenths_digit (not_lt.mp hr)
    have hdec : intText (10 * k.tmod 10) = decimal (10 * d) := by
      rw [hd]
      rfl
    rw [hdec, readDecimal_intText (by decide), hundredths]
    by_cases hneg : k.tdiv 10 < 0
    · -- a whole number of degrees
      have h0 := tmod_eq_zero (not_lt.mp hr) hneg
      have hd0 : ((d : ℕ) : ℚ) = 0 := by
        rw [h0] at hd
        exact_mod_cast hd.symm
      rw [if_pos hneg, if_pos (Or.inr ⟨k.tdiv 10, by omega⟩), hq, hd0]
      simp
    · rw [if_neg hneg, if_pos (Or.inl (by omega)), hq]

theorem denoted_eq_iff (k : ℤ) : denoted (tempText (k / 10)) = some (k / 10 : ℚ) ↔ 0 ≤ k ∨ 10 ∣ k := by
  rw [denoted_tempText]
  by_cases h : 0 ≤ k ∨ 10 ∣ k
  · rw [if_pos h]
    exact iff_of_true rfl h
  · rw [if_neg h]
    exact iff_of_false (Option.some_ne_none _).symm h

/-- The tenths that a raw word stands for: its lower bits, with a sign bit above them. -/
def tenths (rawtemp : UInt16) : ℤ :=
  if rawtemp &&& 0x8000 ≠ 0 then -((rawtemp &&& 0x7fff).toNat : ℤ) else rawtemp.toNat

theorem tempOf_eq_tenths (rawtemp : UInt16) : tempOf rawtemp = (tenths rawtemp : ℚ) / 10 := by
  unfold tempOf tenths
  split
  · push_cast
    ring
  · push_cast
    rfl

/-- **When the text denotes the temperature**: if and only if it is not negative,
or a whole number of degrees. For the values `dhtProcess` stores that is the
sign bit and the magnitude of the raw word. -/
theorem text_denotes_iff (k : ℤ) (rawtemp : UInt16) :
    (denoted (tempText (k / 10)) = some (k / 10 : ℚ) ↔ 0 ≤ k ∨ 10 ∣ k) ∧
      (denoted (tempText (tempOf rawtemp)) = some (tempOf rawtemp) ↔
        rawtemp &&& 0x8000 = 0 ∨ 10 ∣ (rawtemp &&& 0x7fff).toNat) := by
  refine ⟨denoted_eq_iff k, ?_⟩
  rw [tempOf_eq_tenths, denoted_eq_iff, tenths]
  by_cases hs : rawtemp &&& 0x8000 = 0
  · rw [if_neg (not_not.mpr hs)]
    exact iff_of_true (Or.inl (Int.natCast_nonneg _)) (Or.inl hs)
  · rw [if_pos hs, or_iff_right hs]
    omega

/-- -0.5 °C is written `TEMP:0,-50`. -/
theorem half_degree_below : ¬ ∀ k : ℤ, denoted (tempText (k / 10)) = some (k / 10 : ℚ) := by
  intro h
  exact absurd ((denoted_eq_iff (-5)).mp (h (-5))) (by decide)

end Celsius
end Netacademia
