/-
# The DHT22 driver: the capture and its decoding

`orai_munka/user/dht.c` and `dht.h`. The sensor answers with 42 falling edges;
`dhtGpioCbk` stores the time between them in `DhtResult`, and at the 42nd it
decodes them (`dhtProcess`): 40 bits from interval 2 on, a bit is 1 when its
interval is over 100 µs, and the fifth byte is the sum of the other four.

`Board` holds what the interrupt handler and the tasks share: the statics of
dht.c, whether `DhtTimer` is armed, whether the GPIO interrupt is enabled, and
the queue of mainTask. The floats of `DhtHandle` are exact rationals. A store
past the end of `DhtResult` writes outside of the variables modelled here.
-/
import Mathlib.Data.Rat.Defs
import Mathlib.Algebra.Field.Rat
import Netacademia.Lib.Text

namespace Netacademia
namespace Dht

/-- `DhtState` -/
inductive DhtState
  | idle | prep | meas | compl | err
  deriving DecidableEq, Repr

/-- `DhtHandler` of a DHT22 -/
structure DhtHandler where
  state : DhtState
  dhtTemp : ℚ
  dhtHum : ℚ
  timeoutCnt : UInt8

/-- The parameter of an event of mainTask: a pointer, null or `&DhtHandle`. -/
inductive Par
  | null | dhtHandle
  deriving DecidableEq, Repr

structure Board where
  dhtResultIdx : UInt8
  dhtResult : Vector UInt8 42
  dhtTimeOffset : UInt32
  dhtHandle : DhtHandler
  /-- `DhtTimer` is armed. -/
  dhtTimer : Bool
  /-- The GPIO interrupt is enabled (`ETS_GPIO_INTR_ENABLE`). -/
  gpioIntr : Bool
  mainTaskQ : List Par

/-- After reset: statics are zero, nothing is armed. -/
def Board.reset : Board where
  dhtResultIdx := 0
  dhtResult := Vector.replicate 42 0
  dhtTimeOffset := 0
  dhtHandle := ⟨.idle, 0, 0, 0⟩
  dhtTimer := false
  gpioIntr := false
  mainTaskQ := []

def MAIN_TASK_Q_SIZE : ℕ := 2

def DHT_TIMEOUT : UInt8 := 10

/-- `BIT(DHT_PIN)` -/
def dhtPinBit : UInt32 := (1 : UInt32) <<< 14

namespace Board

def setState (b : Board) (st : DhtState) : Board :=
  { b with dhtHandle := { b.dhtHandle with state := st } }

/-- `system_os_post(0, 0, &DhtHandle)`: an event for mainTask, refused when its
queue is full. -/
def post (b : Board) : Board :=
  if b.mainTaskQ.length < MAIN_TASK_Q_SIZE then { b with mainTaskQ := b.mainTaskQ ++ [.dhtHandle] } else b

end Board

/-! ### Decoding -/

/-- What `bits` is at bit `k` of byte `bytes`: it counts up from 2, eight for each byte. -/
def bitsIndex (bytes k : ℕ) : ℕ := 2 + 8 * bytes + k

/-- Byte `bytes` of the frame: its bits, most significant first, are the
intervals that are `long`. -/
def resultByte (long : ℕ → Bool) (bytes : ℕ) : UInt8 :=
  (List.range 8).foldl
    (fun r k => if long (bitsIndex bytes k) then r ||| (1 <<< (7 - k).toUInt8) else r) 0

/-- `DhtResult[bits] > 100` -/
def longBit (r : Vector UInt8 42) (bits : ℕ) : Bool := 100 < r.getD bits 0

def result (r : Vector UInt8 42) (bytes : ℕ) : UInt8 := resultByte (longBit r) bytes

/-- The test of `dhtProcess`: in C the sum is an `int`, the fifth byte is not
extended by it. -/
def parityOk (r : Vector UInt8 42) : Bool :=
  (result r 0).toNat + (result r 1).toNat + (result r 2).toNat + (result r 3).toNat == (result r 4).toNat

/-- `hi << 8 | lo` as `uint16_t` -/
def raw16 (hi lo : UInt8) : UInt16 := hi.toUInt16 <<< 8 ||| lo.toUInt16

def tempOf (rawtemp : UInt16) : ℚ :=
  if rawtemp &&& 0x8000 ≠ 0 then (rawtemp &&& 0x7fff).toNat / 10 * -1 else rawtemp.toNat / 10

def humOf (rawhum : UInt16) : ℚ := rawhum.toNat / 10

/-- A frame that fails the test posts `ERR`, and its values are stored all the same. -/
def dhtProcess (b : Board) : Board :=
  let r := b.dhtResult
  let b := if parityOk r then b else (b.setState .err).post
  { b with dhtHandle := { b.dhtHandle with
      dhtTemp := tempOf (raw16 (result r 2) (result r 3))
      dhtHum := humOf (raw16 (result r 0) (result r 1)) } }

/-! ### The interrupt handler -/

/-- `DhtResult[DhtResultIdx++] = WDEW_NOW() - DhtTimeOffset; DhtTimeOffset = WDEW_NOW();`
with the two times the clock shows. -/
def record (now now' : UInt32) (b : Board) : Board :=
  { b with
    dhtResult := b.dhtResult.setIfInBounds b.dhtResultIdx.toNat (now - b.dhtTimeOffset).toUInt8
    dhtResultIdx := b.dhtResultIdx + 1
    dhtTimeOffset := now' }

/-- The end of a capture. -/
def finish (b : Board) : Board :=
  let b := dhtProcess { b with gpioIntr := false }
  ({ b with dhtTimer := false }.setState .compl).post

/-- The handler, with the status register it reads. -/
def dhtGpioCbk (gpioStatus now now' : UInt32) (b : Board) : Board :=
  let b := b.setState .meas
  if gpioStatus &&& dhtPinBit ≠ 0 then
    let b := record now now' b
    if 41 < b.dhtResultIdx then finish b else b
  else b

/-- The interrupt ends a capture: it is an edge of the DHT pin, the last one. -/
def lastEdge (gpioStatus : UInt32) (b : Board) : Bool :=
  gpioStatus &&& dhtPinBit ≠ 0 && 41 < b.dhtResultIdx + 1

/-! ### What the handler does -/

section Facts

variable (b : Board) (st : DhtState) (gpioStatus now now' : UInt32)

@[simp] theorem setState_state : (b.setState st).dhtHandle.state = st := rfl
@[simp] theorem setState_dhtTimer : (b.setState st).dhtTimer = b.dhtTimer := rfl
@[simp] theorem setState_mainTaskQ : (b.setState st).mainTaskQ = b.mainTaskQ := rfl

@[simp] theorem post_dhtHandle : b.post.dhtHandle = b.dhtHandle := by unfold Board.post; split <;> rfl
@[simp] theorem post_dhtTimer : b.post.dhtTimer = b.dhtTimer := by unfold Board.post; split <;> rfl

/-- After a post there is an event in the queue: a full queue is not empty. -/
theorem post_mainTaskQ_ne : b.post.mainTaskQ ≠ [] := by
  unfold Board.post
  split
  · simp
  · rename_i h
    intro he
    simp [he, MAIN_TASK_Q_SIZE] at h

/-- An interrupt that does not end a capture only records. -/
theorem dhtGpioCbk_of_not_last (h : lastEdge gpioStatus b = false) :
    (dhtGpioCbk gpioStatus now now' b).dhtHandle = { b.dhtHandle with state := .meas } ∧
      (dhtGpioCbk gpioStatus now now' b).dhtTimer = b.dhtTimer ∧
      (dhtGpioCbk gpioStatus now now' b).mainTaskQ = b.mainTaskQ := by
  unfold dhtGpioCbk
  by_cases hs : gpioStatus &&& dhtPinBit ≠ 0
  · have hi : ¬ 41 < b.dhtResultIdx + 1 := by simpa [lastEdge, hs] using h
    rw [if_pos hs, if_neg (show ¬ 41 < (record now now' (b.setState .meas)).dhtResultIdx from hi)]
    exact ⟨rfl, rfl, rfl⟩
  · rw [if_neg hs]
    exact ⟨rfl, rfl, rfl⟩

/-- An interrupt of other pins only. -/
theorem dhtGpioCbk_other (hs : gpioStatus &&& dhtPinBit = 0) :
    dhtGpioCbk gpioStatus now now' b = b.setState .meas := by
  rw [dhtGpioCbk, if_neg (not_not.mpr hs)]

/-- An edge that leaves the capture open. -/
theorem dhtGpioCbk_open (hs : gpioStatus &&& dhtPinBit ≠ 0) (hi : ¬ 41 < b.dhtResultIdx + 1) :
    dhtGpioCbk gpioStatus now now' b = record now now' (b.setState .meas) := by
  unfold dhtGpioCbk
  rw [if_pos hs, if_neg (show ¬ 41 < (record now now' (b.setState .meas)).dhtResultIdx from hi)]

/-- The interrupt that ends a capture leaves `COMPL` and an event, whatever the
checksum said. -/
theorem dhtGpioCbk_of_last (h : lastEdge gpioStatus b = true) :
    dhtGpioCbk gpioStatus now now' b = finish (record now now' (b.setState .meas)) := by
  simp only [lastEdge, Bool.and_eq_true, decide_eq_true_eq] at h
  unfold dhtGpioCbk
  rw [if_pos h.1, if_pos (show 41 < (record now now' (b.setState .meas)).dhtResultIdx from h.2)]

theorem post_cases : b.post = b ∨ b.post = { b with mainTaskQ := b.mainTaskQ ++ [.dhtHandle] } := by
  unfold Board.post
  split
  · exact Or.inr rfl
  · exact Or.inl rfl

@[simp] theorem post_dhtResult : b.post.dhtResult = b.dhtResult := by
  rcases post_cases b with h | h <;> rw [h]

@[simp] theorem post_dhtResultIdx : b.post.dhtResultIdx = b.dhtResultIdx := by
  rcases post_cases b with h | h <;> rw [h]

@[simp] theorem post_gpioIntr : b.post.gpioIntr = b.gpioIntr := by
  rcases post_cases b with h | h <;> rw [h]

/-- The end of a capture leaves the intervals and the index, with the interrupt disabled. -/
theorem finish_keeps : (finish b).dhtResult = b.dhtResult ∧ (finish b).dhtResultIdx = b.dhtResultIdx ∧
    (finish b).gpioIntr = false := by
  simp only [finish, post_dhtResult, post_dhtResultIdx, post_gpioIntr, Board.setState, dhtProcess]
  split <;> simp

/-- What the handler can do: nothing with the capture, record into it, or end it. -/
theorem dhtGpioCbk_cases :
    (gpioStatus &&& dhtPinBit = 0 ∧ dhtGpioCbk gpioStatus now now' b = b.setState .meas) ∨
    (gpioStatus &&& dhtPinBit ≠ 0 ∧ ¬ 41 < b.dhtResultIdx + 1 ∧
      dhtGpioCbk gpioStatus now now' b = record now now' (b.setState .meas)) ∨
    (gpioStatus &&& dhtPinBit ≠ 0 ∧ 41 < b.dhtResultIdx + 1 ∧
      dhtGpioCbk gpioStatus now now' b = finish (record now now' (b.setState .meas))) := by
  by_cases hs : gpioStatus &&& dhtPinBit = 0
  · exact Or.inl ⟨hs, dhtGpioCbk_other b gpioStatus now now' hs⟩
  · by_cases hi : 41 < b.dhtResultIdx + 1
    · exact Or.inr (Or.inr ⟨hs, hi, dhtGpioCbk_of_last b gpioStatus now now' (by simp [lastEdge, hs, hi])⟩)
    · exact Or.inr (Or.inl ⟨hs, hi, dhtGpioCbk_open b gpioStatus now now' hs hi⟩)

theorem finish_state : (finish b).dhtHandle.state = .compl := by simp [finish]

theorem finish_mainTaskQ_ne : (finish b).mainTaskQ ≠ [] := post_mainTaskQ_ne _

end Facts

/-- A post adds no null pointer. -/
theorem post_queue {b : Board} (h : ∀ p ∈ b.mainTaskQ, p = .dhtHandle) :
    ∀ p ∈ b.post.mainTaskQ, p = .dhtHandle := by
  unfold Board.post
  split
  · rintro p hp
    rcases List.mem_append.mp hp with hp | hp
    · exact h p hp
    · exact List.mem_singleton.mp hp
  · exact h

theorem finish_queue {b : Board} (h : ∀ p ∈ b.mainTaskQ, p = .dhtHandle) :
    ∀ p ∈ (finish b).mainTaskQ, p = .dhtHandle := by
  refine post_queue ?_
  simp only [setState_mainTaskQ, dhtProcess]
  split
  · exact h
  · exact post_queue h

end Dht
end Netacademia
