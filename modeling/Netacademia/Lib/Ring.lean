/-
# Circular storage

A list of cells read in a circle: `contents mem out n` are the `n` cells from
index `out` on, the first cells following the last. A byte stored behind them is
appended (`contents_set`), one taken from their front is their head
(`contents_head`), and a piece copied behind them is appended as a whole
(`contents_store`; what goes over the end is copied as two pieces). `succ_wrap` is
a pointer that goes back to the start at the end of the storage.
-/
import Mathlib.Data.List.Rotate
import Mathlib.Data.Nat.ModEq

namespace Lib
namespace Ring

variable {β : Type*}

/-- The `n` cells from `out` on. -/
def contents (mem : List β) (out n : ℕ) : List β := (mem.rotate out).take n

@[simp] theorem contents_zero (mem : List β) (out : ℕ) : contents mem out 0 = [] := List.take_zero

theorem length_contents {mem : List β} {n : ℕ} (h : n ≤ mem.length) (out : ℕ) : (contents mem out n).length = n := by
  rw [contents, List.length_take_of_le]
  rwa [List.length_rotate]

/-- Indices are modulo the size. -/
theorem contents_mod (mem : List β) (out n : ℕ) : contents mem (out % mem.length) n = contents mem out n := by
  rw [contents, List.rotate_mod, contents]

/-! ### One cell -/

/-- A pointer that goes back to the start. -/
theorem succ_wrap {p size : ℕ} (h : p < size) : (if size ≤ p + 1 then 0 else p + 1) = (p + 1) % size := by
  split
  · have he : p + 1 = size := by omega
    rw [he, Nat.mod_self]
  · exact (Nat.mod_eq_of_lt (by omega)).symm

theorem succ_wrap_eq {p size : ℕ} (h : p < size) : (if p + 1 = size then 0 else p + 1) = (p + 1) % size := by
  split
  · rename_i he
    rw [he, Nat.mod_self]
  · exact (Nat.mod_eq_of_lt (by omega)).symm

/-- The cell at an offset from `out`. -/
theorem rotate_set (mem : List β) (out : ℕ) {n : ℕ} (h : n < mem.length) (b : β) :
    (mem.set ((out + n) % mem.length) b).rotate out = (mem.rotate out).set n b := by
  refine List.ext_getElem (by simp) fun i hi _ => ?_
  have hi' : i < mem.length := by simpa using hi
  rw [List.getElem_rotate, List.getElem_set, List.getElem_set, List.getElem_rotate]
  simp only [List.length_set]
  have hiff : (out + n) % mem.length = (i + out) % mem.length ↔ n = i := by
    rw [Nat.add_comm i out]
    constructor
    · intro he
      have hmod : Nat.ModEq mem.length n i := Nat.ModEq.add_left_cancel' out he
      exact Nat.ModEq.eq_of_lt_of_lt hmod h hi'
    · intro he
      rw [he]
  by_cases he : n = i
  · rw [if_pos (hiff.mpr he), if_pos he]
  · rw [if_neg fun hc => he (hiff.mp hc), if_neg he]

/-- A cell behind the contents is stored to: it is appended. -/
theorem contents_set (mem : List β) (out : ℕ) {n : ℕ} (h : n < mem.length) (b : β) :
    contents (mem.set ((out + n) % mem.length) b) out (n + 1) = contents mem out n ++ [b] := by
  rw [contents, rotate_set mem out h, contents]
  have hlen : n < ((mem.rotate out).set n b).length := by simpa using h
  rw [List.take_succ_eq_append_getElem hlen, List.getElem_set_self, List.take_set_of_le (Nat.le_refl n)]

/-- The first cell of the contents, and the rest of them. -/
theorem contents_head {mem : List β} {out n : ℕ} (ho : out < mem.length) (hn : n + 1 ≤ mem.length) :
    ∃ b, mem[out]? = some b ∧ contents mem out (n + 1) = b :: contents mem (out + 1) n := by
  have hhead : (mem.rotate out).head? = mem[out]? := List.head?_rotate ho
  have hne : mem.rotate out ≠ [] := by
    rw [Ne, List.rotate_eq_nil_iff]
    rintro rfl
    exact absurd ho (Nat.not_lt_zero out)
  obtain ⟨b, bs, hb⟩ := List.exists_cons_of_ne_nil hne
  have hlen : (b :: bs).length = mem.length := by rw [← hb, List.length_rotate]
  refine ⟨b, ?_, ?_⟩
  · rw [← hhead, hb, List.head?_cons]
  · have hnext : mem.rotate (out + 1) = bs ++ [b] := by
      rw [← List.rotate_rotate, hb, List.rotate_cons_succ, List.rotate_zero]
    rw [contents, hb, List.take_succ_cons, contents, hnext, List.take_append_of_le_length]
    rw [List.length_cons] at hlen
    omega

/-! ### Pieces -/

/-- The contents of a part, and of the rest. -/
theorem contents_add (mem : List β) (out m : ℕ) {n : ℕ} (h : m + n ≤ mem.length) :
    contents mem out (m + n) = contents mem out m ++ contents mem (out + m) n := by
  have hlen : (mem.rotate out).length = mem.length := List.length_rotate mem out
  have hrest : (mem.rotate (out + m)).take n = ((mem.rotate out).drop m).take n := by
    rw [← List.rotate_rotate, List.rotate_eq_drop_append_take (l := mem.rotate out) (by omega),
      List.take_append_of_le_length]
    rw [List.length_drop]
    omega
  rw [contents, contents, contents, hrest, List.take_add]

theorem take_contents (mem : List β) (out : ℕ) {m n : ℕ} (h : m ≤ n) :
    (contents mem out n).take m = contents mem out m := by
  rw [contents, contents, List.take_take, Nat.min_eq_left h]

theorem drop_contents (mem : List β) (out : ℕ) {m n : ℕ} (h : m ≤ n) (hn : n ≤ mem.length) :
    (contents mem out n).drop m = contents mem (out + m) (n - m) := by
  have hadd := contents_add mem out m (n := n - m) (by omega)
  rw [Nat.add_sub_cancel' h] at hadd
  rw [hadd, List.drop_left' (length_contents (by omega) out)]

/-- A piece that does not go over the end of the storage is copied from it. -/
theorem contents_eq_take {mem : List β} {out n : ℕ} (h : out + n ≤ mem.length) :
    contents mem out n = (mem.drop out).take n := by
  rw [contents, List.rotate_eq_drop_append_take (by omega), List.take_append_of_le_length]
  rw [List.length_drop]
  omega

/-- A piece that goes over the end is copied from it as two. -/
theorem contents_eq_append (mem : List β) (out n : ℕ) (hout : out < mem.length) (htail : mem.length - out ≤ n)
    (hn : n ≤ mem.length) : contents mem out n =
      (mem.drop out).take (mem.length - out) ++ (mem.drop 0).take (n - (mem.length - out)) := by
  have hadd := contents_add mem out (mem.length - out) (n := n - (mem.length - out)) (by omega)
  have h0 : (out + (mem.length - out)) % mem.length = 0 := by
    rw [Nat.add_sub_cancel' (Nat.le_of_lt hout), Nat.mod_self]
  rw [Nat.add_sub_cancel' htail] at hadd
  rw [hadd, ← contents_mod mem (out + _), h0, contents_eq_take (by omega), contents_eq_take (by omega)]

/-- `memcpy(mem + pos, bs, n)` -/
def store (mem : List β) (pos : ℕ) (bs : List β) : List β := mem.take pos ++ bs ++ mem.drop (pos + bs.length)

theorem length_store {mem : List β} {pos : ℕ} {bs : List β} (h : pos + bs.length ≤ mem.length) :
    (store mem pos bs).length = mem.length := by
  rw [store, List.length_append, List.length_append, List.length_take_of_le (by omega), List.length_drop]
  omega

theorem store_nil (mem : List β) (pos : ℕ) : store mem pos [] = mem := by
  rw [store, List.append_nil, List.length_nil, Nat.add_zero, List.take_append_drop]

theorem store_cons {mem : List β} {pos : ℕ} (h : pos < mem.length) (b : β) (bs : List β) :
    store mem pos (b :: bs) = store (mem.set pos b) (pos + 1) bs := by
  have htake : (mem.set pos b).take (pos + 1) = mem.take pos ++ [b] := by
    rw [List.take_succ_eq_append_getElem (by rwa [List.length_set]), List.getElem_set_self,
      List.take_set_of_le (Nat.le_refl pos)]
  have hdrop : (mem.set pos b).drop (pos + 1 + bs.length) = mem.drop (pos + (b :: bs).length) := by
    rw [List.drop_set_of_lt (by omega), List.length_cons, Nat.add_right_comm, Nat.add_assoc]
  rw [store, store, htake, hdrop, List.append_assoc (mem.take pos) [b] bs, List.singleton_append]

/-- A piece copied behind the contents is appended. -/
theorem contents_store (mem : List β) (out : ℕ) {n : ℕ} {bs : List β} (hn : n + bs.length ≤ mem.length)
    (hpos : (out + n) % mem.length + bs.length ≤ mem.length) :
    contents (store mem ((out + n) % mem.length) bs) out (n + bs.length) = contents mem out n ++ bs := by
  induction bs generalizing mem n with
  | nil => rw [store_nil, List.length_nil, Nat.add_zero, List.append_nil]
  | cons b bs ih =>
    rw [List.length_cons] at hn hpos
    have hlt : n < mem.length := by omega
    have hset := contents_set mem out hlt b
    have hlen : (mem.set ((out + n) % mem.length) b).length = mem.length := List.length_set
    rw [store_cons (by omega), List.length_cons, Nat.add_comm bs.length 1, ← Nat.add_assoc]
    by_cases hbs : bs = []
    · subst hbs
      rw [store_nil]
      exact hset
    · -- there is a cell left, so the next one does not go over the end
      have hpos' : 0 < bs.length := List.length_pos_iff.mpr hbs
      have hin : (out + n) % mem.length + 1 < mem.length := by omega
      have hnext : (out + n) % mem.length + 1 = (out + (n + 1)) % mem.length :=
        (Nat.mod_eq_of_lt hin).symm.trans (Nat.mod_add_mod ..)
      have hih := ih (mem.set ((out + n) % mem.length) b) (n := n + 1) (by rw [hlen]; omega)
        (by rw [hlen, ← hnext]; omega)
      rw [hlen, ← hnext, hset, List.append_assoc, List.singleton_append] at hih
      exact hih

end Ring
end Lib
