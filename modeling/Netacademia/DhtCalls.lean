/-
# The driver's routines as calls

`dhtGpioCbkSetup`, `dhtTimerCbk` and `dhtStart` of `orai_munka/user/dht.c`, each
run to its end at one time of the clock. The firmware does the same where no
interrupt comes between the statements of the routine (`run_dhtGpioCbkSetup`,
`run_dhtTimerCbk`, `run_dhtStart`).
-/
import Netacademia.Firmware

namespace Netacademia
namespace DhtCalls

open Lib Dht Firmware

def dhtGpioCbkSetup (now : UInt32) (b : Board) : Board :=
  { b with
    gpioIntr := true
    dhtResultIdx := 0
    dhtResult := Vector.replicate 42 0
    dhtTimeOffset := now }

/-- The time-out of `dhtTimerCbk`. -/
def timeout (b : Board) : Board := ({ b with dhtTimer := false }.setState .err).post

def dhtTimerCbk (now : UInt32) (b : Board) : Board :=
  let b := { b with dhtHandle := { b.dhtHandle with timeoutCnt := b.dhtHandle.timeoutCnt + 1 } }
  let b := if DHT_TIMEOUT < b.dhtHandle.timeoutCnt then timeout b else b
  dhtGpioCbkSetup now b

def dhtInit (b : Board) : Board :=
  let b := b.setState .prep
  { b with dhtHandle := { b.dhtHandle with timeoutCnt := 0 } }

def dhtStart (b : Board) : Board := { dhtInit b with dhtTimer := true }

/-! ### The firmware runs them -/

section Run

variable (now : UInt32) (b : Board) (sts : UInt8) (pb : List Char) (rest : List Stmt)

theorem run_dhtGpioCbkSetup :
    firmware.run ⟨b, sts, pb, Firmware.dhtGpioCbkSetup ++ rest⟩ (execs now 10) =
      some ⟨dhtGpioCbkSetup now b, sts, pb, rest⟩ := rfl

theorem run_dhtStart :
    firmware.run ⟨b, sts, pb, Firmware.dhtStart ++ rest⟩ (execs now 8) = some ⟨dhtStart b, sts, pb, rest⟩ := rfl

/-- A tick takes three statements more where it times out. -/
theorem run_dhtTimerCbk :
    ∃ n, firmware.run ⟨b, sts, pb, Firmware.dhtTimerCbk ++ rest⟩ (execs now n) =
      some ⟨dhtTimerCbk now b, sts, pb, rest⟩ := by
  set b1 : Board := { b with dhtHandle := { b.dhtHandle with timeoutCnt := b.dhtHandle.timeoutCnt + 1 } } with hb1
  -- the four statements up to the test
  have htest : ∀ n, firmware.run ⟨b, sts, pb, Firmware.dhtTimerCbk ++ rest⟩ (execs now (n + 4)) =
      firmware.run ⟨b1, sts, pb, (if DHT_TIMEOUT < b1.dhtHandle.timeoutCnt then Firmware.timeout else []) ++
        (Firmware.dhtGpioCbkSetup ++ rest)⟩ (execs now n) := fun _ => rfl
  by_cases ht : DHT_TIMEOUT < b1.dhtHandle.timeoutCnt
  · refine ⟨13 + 4, ?_⟩
    rw [htest, if_pos ht, dhtTimerCbk, ← hb1, if_pos ht]
    exact run_dhtGpioCbkSetup now (timeout b1) sts pb rest
  · refine ⟨10 + 4, ?_⟩
    rw [htest, if_neg ht, dhtTimerCbk, ← hb1, if_neg ht]
    exact run_dhtGpioCbkSetup now b1 sts pb rest

end Run

end DhtCalls
end Netacademia
