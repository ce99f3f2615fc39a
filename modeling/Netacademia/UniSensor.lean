/-
# The shared interrupt handler of the development firmware

`development/user`: dht.c, hcsr04.c and uni-sensor.c. Both drivers attach
`GpioUniCbk`, and `GpioUniCbk` calls `hcsr04GpioIntCbk` and nothing else
(`GpioCbk` of orai_munka, written after it, calls both handlers). The DHT driver,
the event queue and the GPIO interrupt are those of `DevDht`.

* `ultraSensSts_le`: `UltraSensSts` is never past 1 here, so the HC-SR04 handler
  acknowledges every interrupt of its pin.
* `both_served_iff`: in a run every pin is served exactly when no interrupt is of the
  DHT pin.
-/
import Netacademia.Lib.Machine
import Netacademia.DevDht
import Netacademia.Sensors

namespace Netacademia
namespace UniSensor

open Lib DevDht
open Dht (dhtPinBit)
open Sensors (hcInputBit)

/-! ### The HC-SR04 driver -/

/-- The interrupt of `HC_INPUT`: `gpio_pin_intr_state_set`. -/
inductive HcIntr
  | disable | posEdge | negEdge
  deriving DecidableEq, Repr

/-- The statics of hcsr04.c; `state` and `result` are those of the handler `Hcsr04`. -/
structure Hcsr04 where
  ultraSensSts : UInt8
  timerOffset : UInt32
  ultraSensorResult : UInt32
  state : SensorSts
  result : ℚ
  pinIntr : HcIntr

def HCSR04_DRIVER_SOURCE : UInt32 := 2

def DHT_TIMEOUT : UInt8 := 10

structure State where
  /-- The DHT driver, the GPIO interrupt and the queue of mainTask. -/
  driver : Driver
  dhtTimeout : UInt8
  hc : Hcsr04

def State.reset : State := ⟨.reset, 0, ⟨0, 0, 0, .idle, 0, .disable⟩⟩

/-- `system_os_post(0, HCSR04_DRIVER_SOURCE, &Hcsr04)` -/
def postHcsr04 (d : Driver) : Driver :=
  if d.mainTaskQ.length < MAIN_TASK_Q_SIZE then { d with mainTaskQ := d.mainTaskQ ++ [HCSR04_DRIVER_SOURCE] }
  else d

/-- `ultrasensorInit`, all that `Hcsr04Start` does to the drivers. -/
def ultrasensorInit (s : State) : State :=
  { s with
    driver := { s.driver with gpioIntr := true }
    hc := { s.hc with pinIntr := .posEdge, state := .meas, ultraSensSts := 0 } }

/-- With the drivers there is returned what the handler writes to
`GPIO_STATUS_W1TC_ADDRESS`. The first edge counts `UltraSensSts` up, the second does not. -/
def hcsr04GpioIntCbk (gpioStatus now : UInt32) (s : State) : State × UInt32 :=
  if gpioStatus &&& hcInputBit ≠ 0 then
    if s.hc.ultraSensSts = 0 then
      ({ s with hc :=
          { s.hc with
            timerOffset := now
            pinIntr := .negEdge
            ultraSensSts := s.hc.ultraSensSts + 1 } }, gpioStatus &&& hcInputBit)
    else if s.hc.ultraSensSts = 1 then
      let raw := now - s.hc.timerOffset
      ({ s with
          driver := postHcsr04 s.driver
          hc :=
            { s.hc with
              ultraSensorResult := raw
              pinIntr := .disable
              state := .compl
              result := (raw.toNat : ℚ) * (34 / 1000) / 2 } }, gpioStatus &&& hcInputBit)
    else (s, 0)
  else (s, 0)

/-- uni-sensor.c -/
def gpioUniCbk (gpioStatus now : UInt32) (s : State) : State × UInt32 := hcsr04GpioIntCbk gpioStatus now s

/-! ### The rest of the DHT driver, and mainTask -/

/-- `DhtInit` and `DhtReadStart` -/
def dhtTestSeq (s : State) : State :=
  { s with driver := { s.driver.setState .prep with dhtTimer := true }, dhtTimeout := 0 }

def dhtTimerCbk (now : UInt32) (s : State) : State :=
  let s := { s with dhtTimeout := s.dhtTimeout + 1 }
  let driver := if DHT_TIMEOUT < s.dhtTimeout then
      ({ s.driver.setState .err with dhtTimer := false }).post
    else s.driver
  { s with driver := dhtGpioCbkSetup now driver }

/-- What mainTask does with an event of its queue. -/
def mainTask (s : State) (sig : UInt32) : State :=
  if sig = DHT_DRIVER_SOURCE then
    if s.driver.dhtHandle.state = .compl then { s with driver := s.driver.setState .idle }
    else if s.driver.dhtHandle.state = .err then dhtTestSeq s
    else s
  -- a result of the HC-SR04 is printed
  else s

/-! ### Runs -/

inductive Event
  | dhtTestSeq
  | hcsr04Start
  /-- `DhtTimer` expires. -/
  | tick (now : UInt32)
  /-- The GPIO interrupt; the status register, and the times that the handlers read. -/
  | gpio (gpioStatus now now' : UInt32)
  /-- mainTask takes the first event of its queue. -/
  | dispatch

def step (s : State) : Event → Option State
  | .dhtTestSeq => some (dhtTestSeq s)
  | .hcsr04Start => some (ultrasensorInit s)
  | .tick now => if s.driver.dhtTimer then some (dhtTimerCbk now s) else none
  | .gpio gpioStatus now _ => if s.driver.gpioIntr then some (gpioUniCbk gpioStatus now s).1 else none
  | .dispatch =>
    match s.driver.mainTaskQ with
    | [] => none
    | sig :: q => some (mainTask { s with driver := { s.driver with mainTaskQ := q } } sig)

def machine : Machine State Event := ⟨.reset, step⟩

/-- What the DHT driver keeps of a capture. -/
def SameCapture (d d' : Driver) : Prop :=
  d.dhtResultIdx = d'.dhtResultIdx ∧ d.dhtResult = d'.dhtResult ∧ d.dhtTimeOffset = d'.dhtTimeOffset ∧
    d.dhtHandle = d'.dhtHandle

/-- An interrupt serves both pins: the bit of a pin whose interrupt is on is cleared,
and an edge does to the driver of its pin what the handler of that driver does. -/
def Served (s : State) : Event → Prop
  | .gpio gpioStatus now now' =>
    (gpioStatus &&& hcInputBit ≠ 0 →
      (s.hc.pinIntr ≠ .disable → (gpioUniCbk gpioStatus now s).2 &&& hcInputBit ≠ 0) ∧
        (gpioUniCbk gpioStatus now s).1.hc = (hcsr04GpioIntCbk gpioStatus now s).1.hc) ∧
    (gpioStatus &&& dhtPinBit ≠ 0 →
      (s.driver.pinIntr ≠ .disable → (gpioUniCbk gpioStatus now s).2 &&& dhtPinBit ≠ 0) ∧
        SameCapture (gpioUniCbk gpioStatus now s).1.driver (dhtGpioCbk gpioStatus now now' s.driver).1)
  | _ => True

/-- The interrupt is not of the DHT pin. -/
def NoDht (_ : State) : Event → Prop
  | .gpio gpioStatus _ _ => gpioStatus &&& dhtPinBit = 0
  | _ => True

instance : ∀ s e, Decidable (NoDht s e)
  | _, .gpio _ _ _ => inferInstanceAs (Decidable (_ = _))
  | _, .dhtTestSeq => isTrue trivial
  | _, .hcsr04Start => isTrue trivial
  | _, .tick _ => isTrue trivial
  | _, .dispatch => isTrue trivial

/-! ### What the handlers do -/

section Handlers

variable {gpioStatus : UInt32} (now now' : UInt32) (s : State)

/-- The HC-SR04 handler acknowledges its pin while it is in a measurement. -/
theorem hcsr04GpioIntCbk_mask (h : gpioStatus &&& hcInputBit ≠ 0) (hsts : s.hc.ultraSensSts ≤ 1) :
    (hcsr04GpioIntCbk gpioStatus now s).2 = gpioStatus &&& hcInputBit := by
  rw [hcsr04GpioIntCbk, if_pos h]
  by_cases h0 : s.hc.ultraSensSts = 0
  · rw [if_pos h0]
  · have h1 : s.hc.ultraSensSts = 1 := by
      have hle := UInt8.le_iff_toNat_le.mp hsts
      have hne : s.hc.ultraSensSts.toNat ≠ 0 := fun hz => h0 (UInt8.toNat_inj.mp hz)
      exact UInt8.toNat_inj.mp (Nat.le_antisymm hle (Nat.one_le_iff_ne_zero.mpr hne))
    rw [if_neg h0, if_pos h1]

/-- It does not touch the capture of the DHT driver. -/
theorem hcsr04GpioIntCbk_idx (gpioStatus : UInt32) :
    (hcsr04GpioIntCbk gpioStatus now s).1.driver.dhtResultIdx = s.driver.dhtResultIdx := by
  have hpost : (postHcsr04 s.driver).dhtResultIdx = s.driver.dhtResultIdx := by
    unfold postHcsr04
    split <;> rfl
  unfold hcsr04GpioIntCbk
  split
  · split
    · rfl
    · split
      · exact hpost
      · rfl
  · rfl

theorem hcsr04GpioIntCbk_sts (gpioStatus : UInt32) {s : State} (h : s.hc.ultraSensSts ≤ 1) :
    (hcsr04GpioIntCbk gpioStatus now s).1.hc.ultraSensSts ≤ 1 := by
  unfold hcsr04GpioIntCbk
  split
  · split
    · have h0 : s.hc.ultraSensSts = 0 := by assumption
      change s.hc.ultraSensSts + 1 ≤ 1
      rw [h0]
      exact UInt8.le_refl 1
    · split
      · exact h
      · exact h
  · exact h

theorem mainTask_hc (sig : UInt32) : (mainTask s sig).hc = s.hc := by
  unfold mainTask
  split
  · split
    · rfl
    · split <;> rfl
  · rfl

/-- The handler of the DHT driver counts an edge. -/
theorem dhtGpioCbk_idx (h : gpioStatus &&& dhtPinBit ≠ 0) (d : Driver) :
    (dhtGpioCbk gpioStatus now now' d).1.dhtResultIdx = d.dhtResultIdx + 1 := by
  by_cases hi : 41 < d.dhtResultIdx + 1
  · rw [dhtGpioCbk_last d now now' h hi, finish_dhtResultIdx]
    rfl
  · rw [dhtGpioCbk_open d now now' h hi]
    rfl

end Handlers

/-! ### Runs -/

/-- `UltraSensSts` counts the first edge only. -/
theorem ultraSensSts_step (s : State) (e : Event) (s' : State) (h : s.hc.ultraSensSts ≤ 1)
    (hs : machine.step s e = some s') : s'.hc.ultraSensSts ≤ 1 := by
  cases e with
  | dhtTestSeq =>
    obtain rfl := Option.some.inj hs
    exact h
  | hcsr04Start =>
    obtain rfl := Option.some.inj hs
    have h0 : (0 : UInt8) ≤ 1 := by decide
    exact h0
  | tick now =>
    obtain ⟨-, hs'⟩ := Option.ite_none_right_eq_some.mp hs
    obtain rfl := Option.some.inj hs'
    exact h
  | gpio gpioStatus now now' =>
    obtain ⟨-, hs'⟩ := Option.ite_none_right_eq_some.mp hs
    obtain rfl := Option.some.inj hs'
    exact hcsr04GpioIntCbk_sts now gpioStatus h
  | dispatch =>
    rcases hq : s.driver.mainTaskQ with _ | ⟨sig, q⟩
    · simp only [machine, step, hq] at hs
      cases hs
    · simp only [machine, step, hq, Option.some.injEq] at hs
      rw [← hs, mainTask_hc]
      exact h

theorem ultraSensSts_le (es : List Event) :
    machine.Throughout (fun s => s.hc.ultraSensSts ≤ 1) machine.init es :=
  machine.throughout_of_inv ultraSensSts_step (by decide) es

theorem served_gpio_iff (s : State) (e : Event) (s' : State) (h : s.hc.ultraSensSts ≤ 1)
    (hs : machine.step s e = some s') : Served s e ↔ NoDht s e := by
  cases e with
  | gpio gpioStatus now now' =>
    constructor
    · rintro ⟨-, hd⟩
      by_contra hbit
      -- the handler of the DHT driver would have counted the edge
      have hidx := (hd hbit).2.1
      rw [gpioUniCbk, hcsr04GpioIntCbk_idx, dhtGpioCbk_idx now now' hbit] at hidx
      exact absurd hidx.symm (by simp)
    · intro hbit
      refine ⟨fun hin => ⟨fun _ => ?_, rfl⟩, fun hd => absurd hbit hd⟩
      rw [gpioUniCbk, hcsr04GpioIntCbk_mask now s hin h, UInt32.and_assoc, UInt32.and_self]
      exact hin
  | _ => exact Iff.rfl

/-- **When both sensors are served.** In a run of starts, ticks, interrupts and events
of mainTask, each interrupt clears the bits of the pins whose interrupt is on and
each edge does what the handler of its driver does, if and only if no interrupt is
of the DHT pin. -/
theorem both_served_iff (es : List Event) :
    machine.Along Served machine.init es ↔ machine.Along NoDht machine.init es :=
  machine.along_iff_along (fun s e s' h _ hs => ultraSensSts_step s e s' h hs) served_gpio_iff (by decide) es

/-- The first edge of a capture is lost, and its bit stays set. -/
theorem dht_edge_lost : ¬ ∀ es, machine.Along Served machine.init es := by
  intro h
  have hrun := (machine.along_iff_along (fun s e s' h _ hs => ultraSensSts_step s e s' h hs) served_gpio_iff (by decide)
    _).mp (h [.dhtTestSeq, .tick 0, .gpio dhtPinBit 50 50])
  revert hrun
  decide +kernel

end UniSensor
end Netacademia
