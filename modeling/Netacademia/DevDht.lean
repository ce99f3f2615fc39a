/-
# The DHT22 driver of the development firmware

`development/user/dht.c`, `dht.h` and `uni-sensor.h`: the driver the one of
orai_munka was written from. It keeps the intervals as `uint32_t`, enables the
interrupt of its pin in `DhtGpioCbkSetup` and disables it at the end of a
capture, and posts under `DHT_DRIVER_SOURCE`.

`Driver` is what these functions share. `dhtGpioCbk` returns with the state
what it did to `DhtResult` and the calls of `DhtProcess` it made.
-/
import Netacademia.Dht

namespace Netacademia
namespace DevDht

open Dht (bitsIndex resultByte raw16 tempOf humOf dhtPinBit)

/-- `SensorSts_t` -/
inductive SensorSts
  | idle | meas | prep | compl | err
  deriving DecidableEq, Repr

/-- `DhtHandler` of a DHT22 -/
structure DhtHandler where
  state : SensorSts
  dhtTemp : ℚ
  dhtHum : ℚ

/-- The interrupt of the DHT pin: `gpio_pin_intr_state_set`. -/
inductive PinIntr
  | disable | negEdge
  deriving DecidableEq, Repr

structure Driver where
  dhtResultIdx : UInt8
  dhtResult : Vector UInt32 42
  dhtTimeOffset : UInt32
  dhtHandle : DhtHandler
  /-- `DhtTimer` is armed. -/
  dhtTimer : Bool
  /-- The GPIO interrupt is enabled (`ETS_GPIO_INTR_ENABLE`). -/
  gpioIntr : Bool
  pinIntr : PinIntr
  /-- The signals of the events queued for mainTask, all of them on `&DhtHandle`. -/
  mainTaskQ : List UInt32

/-- After reset: statics are zero, nothing is armed. -/
def Driver.reset : Driver where
  dhtResultIdx := 0
  dhtResult := Vector.replicate 42 0
  dhtTimeOffset := 0
  dhtHandle := ⟨.idle, 0, 0⟩
  dhtTimer := false
  gpioIntr := false
  pinIntr := .disable
  mainTaskQ := []

def MAIN_TASK_Q_SIZE : ℕ := 3

def DHT_DRIVER_SOURCE : UInt32 := 1

namespace Driver

def setState (d : Driver) (st : SensorSts) : Driver :=
  { d with dhtHandle := { d.dhtHandle with state := st } }

/-- `system_os_post(0, DHT_DRIVER_SOURCE, &DhtHandle)` -/
def post (d : Driver) : Driver :=
  if d.mainTaskQ.length < MAIN_TASK_Q_SIZE then { d with mainTaskQ := d.mainTaskQ ++ [DHT_DRIVER_SOURCE] } else d

end Driver

/-! ### Decoding -/

/-- `DhtResult[bits] > 100` -/
def longBit (r : Vector UInt32 42) (bits : ℕ) : Bool := 100 < r.getD bits 0

def result (r : Vector UInt32 42) (bytes : ℕ) : UInt8 := resultByte (longBit r) bytes

/-- The test of `DhtProcess`, a comparison of `int`s. -/
def parityOk (r : Vector UInt32 42) : Bool :=
  (result r 0).toNat + (result r 1).toNat + (result r 2).toNat + (result r 3).toNat == (result r 4).toNat

def dhtProcess (d : Driver) : Driver :=
  let r := d.dhtResult
  let d := if parityOk r then d else (d.setState .err).post
  { d with dhtHandle := { d.dhtHandle with
      dhtTemp := tempOf (raw16 (result r 2) (result r 3))
      dhtHum := humOf (raw16 (result r 0) (result r 1)) } }

/-! ### The interrupt handler -/

/-- A store to or a load from `DhtResult[idx]`, and a call of `DhtProcess`. -/
inductive Op
  | store (idx : ℕ)
  | load (idx : ℕ)
  | dhtProcess
  deriving DecidableEq, Repr

/-- What `DhtProcess` loads: for each byte the intervals that `resultByte` reads. -/
def loads : List Op := (List.range 5).flatMap fun bytes => (List.range 8).map fun k => .load (bitsIndex bytes k)

def dhtGpioCbkSetup (now : UInt32) (d : Driver) : Driver :=
  { d with
    pinIntr := .negEdge
    gpioIntr := true
    dhtResultIdx := 0
    dhtResult := Vector.replicate 42 0
    dhtTimeOffset := now }

/-- `DhtResult[DhtResultIdx++] = WDEW_NOW() - DhtTimeOffset; DhtTimeOffset = WDEW_NOW();` -/
def record (now now' : UInt32) (d : Driver) : Driver :=
  { d with
    dhtResult := d.dhtResult.setIfInBounds d.dhtResultIdx.toNat (now - d.dhtTimeOffset)
    dhtResultIdx := d.dhtResultIdx + 1
    dhtTimeOffset := now' }

/-- The end of a capture. -/
def finish (d : Driver) : Driver :=
  let d := { dhtProcess d with pinIntr := .disable, dhtTimer := false }
  (d.setState .compl).post

/-- The handler, with the status register it reads and the two times the clock shows. -/
def dhtGpioCbk (gpioStatus now now' : UInt32) (d : Driver) : Driver × List Op :=
  let d := d.setState .meas
  if gpioStatus &&& dhtPinBit ≠ 0 then
    let store := Op.store d.dhtResultIdx.toNat
    let d := record now now' d
    if 41 < d.dhtResultIdx then (finish d, store :: .dhtProcess :: loads) else (d, [store])
  else (d, [])

/-! ### What the handler does -/

section Facts

variable (d : Driver) (st : SensorSts) {gpioStatus : UInt32} (now now' : UInt32)

@[simp] theorem setState_dhtResult : (d.setState st).dhtResult = d.dhtResult := rfl
@[simp] theorem setState_state : (d.setState st).dhtHandle.state = st := rfl
@[simp] theorem setState_dhtTemp : (d.setState st).dhtHandle.dhtTemp = d.dhtHandle.dhtTemp := rfl
@[simp] theorem setState_dhtHum : (d.setState st).dhtHandle.dhtHum = d.dhtHandle.dhtHum := rfl
@[simp] theorem post_dhtResult : d.post.dhtResult = d.dhtResult := by unfold Driver.post; split <;> rfl
@[simp] theorem setState_dhtResultIdx : (d.setState st).dhtResultIdx = d.dhtResultIdx := rfl
@[simp] theorem post_dhtResultIdx : d.post.dhtResultIdx = d.dhtResultIdx := by unfold Driver.post; split <;> rfl
@[simp] theorem post_dhtHandle : d.post.dhtHandle = d.dhtHandle := by unfold Driver.post; split <;> rfl

/-- An edge that leaves the capture open. -/
theorem dhtGpioCbk_open (hs : gpioStatus &&& dhtPinBit ≠ 0) (hi : ¬ 41 < d.dhtResultIdx + 1) :
    dhtGpioCbk gpioStatus now now' d =
      (record now now' (d.setState .meas), [.store d.dhtResultIdx.toNat]) := by
  unfold dhtGpioCbk
  rw [if_pos hs, if_neg (show ¬ 41 < (record now now' (d.setState .meas)).dhtResultIdx from hi)]
  rfl

/-- The edge that ends it. -/
theorem dhtGpioCbk_last (hs : gpioStatus &&& dhtPinBit ≠ 0) (hi : 41 < d.dhtResultIdx + 1) :
    dhtGpioCbk gpioStatus now now' d =
      (finish (record now now' (d.setState .meas)), .store d.dhtResultIdx.toNat :: .dhtProcess :: loads) := by
  unfold dhtGpioCbk
  rw [if_pos hs, if_pos (show 41 < (record now now' (d.setState .meas)).dhtResultIdx from hi)]
  rfl

/-- The end of a capture keeps the intervals and stores the values decoded from them. -/
theorem finish_dhtResult : (finish d).dhtResult = d.dhtResult := by
  simp only [finish, dhtProcess, post_dhtResult, setState_dhtResult]
  split
  · rfl
  · simp

theorem finish_dhtResultIdx : (finish d).dhtResultIdx = d.dhtResultIdx := by
  simp only [finish, dhtProcess, post_dhtResultIdx, setState_dhtResultIdx]
  split
  · rfl
  · simp

theorem finish_dhtTemp :
    (finish d).dhtHandle.dhtTemp = tempOf (raw16 (result d.dhtResult 2) (result d.dhtResult 3)) := by
  simp [finish, dhtProcess]

theorem finish_dhtHum :
    (finish d).dhtHandle.dhtHum = humOf (raw16 (result d.dhtResult 0) (result d.dhtResult 1)) := by
  simp [finish, dhtProcess]

end Facts

end DevDht
end Netacademia
