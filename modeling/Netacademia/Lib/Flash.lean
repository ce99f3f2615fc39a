/-
# Flash sectors

A sector is erased as a whole, to ones, and a write only clears bits: what is written to
an erased sector is read back (`read_write`). The operations on a sector leave the other
ones as they are (`exec_other`), and so does an operation that the power failed in,
whatever it left in its own (`cut_other`).
-/
import Mathlib.Data.Nat.Notation
import Mathlib.Logic.Function.Basic

namespace Lib
namespace Flash

/-- The bytes of each sector. -/
abbrev Sectors (ι : Type*) := ι → ℕ → UInt8

inductive Op (ι : Type*)
  | erase (sec : ι)
  | write (sec : ι) (bs : List UInt8)

variable {ι : Type*}

def Op.sec : Op ι → ι
  | erase sec => sec
  | write sec _ => sec

def erased : ℕ → UInt8 := fun _ => 0xFF

/-- A write from the start of a sector. -/
def written (bytes : ℕ → UInt8) (bs : List UInt8) : ℕ → UInt8 := fun i => bytes i &&& bs.getD i 0xFF

/-- The first `n` bytes of a sector. -/
def read (bytes : ℕ → UInt8) (n : ℕ) : Vector UInt8 n := Vector.ofFn fun i => bytes i

theorem written_erased (bs : List UInt8) (i : ℕ) : written erased bs i = bs.getD i 0xFF := by
  apply UInt8.toBitVec_inj.mp
  rw [written, erased, UInt8.toBitVec_and]
  exact BitVec.allOnes_and

/-- What is written to an erased sector is read back. -/
theorem read_write {n : ℕ} (bs : Vector UInt8 n) : read (written erased bs.toList) n = bs := by
  apply Vector.ext
  intro i hi
  have hi' : i < bs.toList.length := by rwa [Vector.length_toList]
  rw [read, Vector.getElem_ofFn, written_erased, List.getD_eq_getElem?_getD, List.getElem?_eq_getElem hi',
    Option.getD_some, Vector.getElem_toList]

section Exec

variable [DecidableEq ι]

def exec (op : Op ι) (flash : Sectors ι) : Sectors ι :=
  match op with
  | .erase sec => Function.update flash sec erased
  | .write sec bs => Function.update flash sec (written (flash sec) bs)

/-- The power fails in an operation, and leaves anything in its sector. -/
def cut (op : Op ι) (junk : ℕ → UInt8) (flash : Sectors ι) : Sectors ι := Function.update flash op.sec junk

theorem exec_other (op : Op ι) (flash : Sectors ι) {sec : ι} (h : sec ≠ op.sec) : exec op flash sec = flash sec := by
  cases op with
  | erase s => exact Function.update_of_ne h _ _
  | write s bs => exact Function.update_of_ne h _ _

theorem cut_other (op : Op ι) (junk : ℕ → UInt8) (flash : Sectors ι) {sec : ι} (h : sec ≠ op.sec) :
    cut op junk flash sec = flash sec := Function.update_of_ne h _ _

theorem exec_erase (flash : Sectors ι) (sec : ι) : exec (.erase sec) flash sec = erased := Function.update_self _ _ _

theorem exec_write (flash : Sectors ι) (sec : ι) (bs : List UInt8) :
    exec (.write sec bs) flash sec = written (flash sec) bs := Function.update_self _ _ _

end Exec

end Flash
end Lib
