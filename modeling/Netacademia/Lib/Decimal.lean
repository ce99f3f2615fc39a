/-
# Decimal fractions in text

A decimal fraction is an optional minus, digits, a separator and digits.
`readDecimal` is the number it stands for; the texts of two numbers with the
separator between them are one, exactly when the second has no minus
(`readDecimal_intText`, `readDecimal_minus`).
-/
import Mathlib.Data.Rat.Defs
import Mathlib.Algebra.Field.Rat
import Mathlib.Tactic.Ring
import Netacademia.Lib.Text

namespace Lib

/-- The number that one digit or more stand for. -/
def digits (cs : List Char) : Option ℕ :=
  if !cs.isEmpty && cs.all Char.isDigit then some (Nat.ofDigitChars 10 cs 0) else none

/-- Digits, the separator, digits. -/
def readUnsigned (sep : Char) (cs : List Char) : Option ℚ :=
  match cs.dropWhile (· ≠ sep) with
  | [] => none
  | _ :: frac => do
    let n ← digits (cs.takeWhile (· ≠ sep))
    let m ← digits frac
    return n + m / 10 ^ frac.length

def readDecimal (sep : Char) : List Char → Option ℚ
  | '-' :: cs => (readUnsigned sep cs).map Neg.neg
  | cs => readUnsigned sep cs

theorem digits_decimal (n : ℕ) : digits (decimal n) = some n := by
  have hne : (!(decimal n).isEmpty) = true := by simp [decimal, Nat.toDigits_ne_nil]
  rw [digits, if_pos (Bool.and_eq_true_iff.mpr ⟨hne, List.all_eq_true.mpr (isDigit_decimal n)⟩)]
  exact congrArg some Nat.ofDigitChars_ten_toDigits

section Separator

variable {sep : Char} (hsep : sep.isDigit = false)

include hsep

/-- The text of a number before the separator, and anything behind it. -/
theorem readUnsigned_decimal (n : ℕ) (frac : List Char) :
    readUnsigned sep (decimal n ++ sep :: frac) =
      (digits frac).map fun (m : ℕ) => (n : ℚ) + m / 10 ^ frac.length := by
  have hall : ∀ c ∈ decimal n, decide (c ≠ sep) = true := by
    intro c hc
    refine decide_eq_true fun he => ?_
    rw [he] at hc
    exact absurd (isDigit_decimal n sep hc) (by rw [hsep]; exact Bool.false_ne_true)
  have hdrop : (decimal n ++ sep :: frac).dropWhile (· ≠ sep) = sep :: frac := by
    rw [List.dropWhile_append_of_pos hall]
    simp
  have htake : (decimal n ++ sep :: frac).takeWhile (· ≠ sep) = decimal n := by
    rw [List.takeWhile_append_of_pos hall]
    simp
  rw [readUnsigned, hdrop, htake, digits_decimal]
  cases hd : digits frac <;> simp [hd]

/-- The text of a number does not begin with a minus. -/
theorem readDecimal_decimal (n : ℕ) (frac : List Char) :
    readDecimal sep (decimal n ++ sep :: frac) =
      (digits frac).map fun (m : ℕ) => (n : ℚ) + m / 10 ^ frac.length := by
  rw [← readUnsigned_decimal hsep]
  obtain ⟨c, cs, hc⟩ := List.exists_cons_of_ne_nil (Nat.toDigits_ne_nil (b := 10) (n := n))
  have hd : c.isDigit = true := isDigit_decimal n c (by rw [decimal, hc]; exact List.mem_cons_self)
  have hne : c ≠ '-' := by
    rintro rfl
    cases hd
  rw [decimal, hc, List.cons_append, readDecimal]
  intro cs' he
  exact hne (List.cons.inj he).1

/-- Two numbers, the second one without a sign. -/
theorem readDecimal_intText (a : ℤ) (m : ℕ) :
    readDecimal sep (intText a ++ sep :: decimal m) =
      some (if a < 0 then (a : ℚ) - m / 10 ^ (decimal m).length else (a : ℚ) + m / 10 ^ (decimal m).length) := by
  cases a with
  | ofNat n =>
    have hn : ¬ Int.ofNat n < 0 := by simp
    rw [intText, readDecimal_decimal hsep, digits_decimal, if_neg hn]
    rfl
  | negSucc n =>
    have hn : Int.negSucc n < 0 := Int.negSucc_lt_zero n
    rw [intText, List.cons_append, readDecimal, readUnsigned_decimal hsep, digits_decimal, if_pos hn]
    simp only [Option.map_some, Int.cast_negSucc, Option.some.injEq]
    push_cast
    ring

/-- Two numbers, the second one with a minus. -/
theorem readDecimal_minus (a : ℤ) (cs : List Char) : readDecimal sep (intText a ++ sep :: '-' :: cs) = none := by
  have hd : digits ('-' :: cs) = none := rfl
  cases a with
  | ofNat n => rw [intText, readDecimal_decimal hsep, hd, Option.map_none]
  | negSucc n =>
    rw [intText, List.cons_append, readDecimal, readUnsigned_decimal hsep, hd, Option.map_none, Option.map_none]

end Separator

end Lib
