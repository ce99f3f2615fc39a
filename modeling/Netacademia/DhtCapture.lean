/-
# What a capture decodes to, in both drivers

A capture is the setup and 42 edges. `clock` shows the time of each edge, on
a 32-bit counter that may wrap anywhere; `v k` is the interval that ends at
edge `k`, and the status register has the bit of the DHT pin beside any others.

* `devCapture_frame`: the driver of the development firmware gives back the
  frame whose bits the intervals are, and its reading.
* `drivers_alike_iff`: the driver of orai_munka keeps the intervals in bytes.
  The two decode the same bytes exactly when no data interval over 100 has a
  low byte of 100 or less.
* `accepts_checksum_iff`: both compare an `int` sum with a byte, so they take a
  frame by its checksum exactly when the sum of the four bytes has no carry or
  the fifth byte is wrong.
-/
import Mathlib.Data.Nat.Bitwise
import Mathlib.Tactic.NormNum
import Mathlib.Tactic.Ring
import Netacademia.Lib.Cells
import Netacademia.DevDht
import Netacademia.DhtCalls

namespace Netacademia
namespace DhtCapture

open Lib Dht

/-! ### The runs -/

/-- The time at edge `k`; the setup is at `t0`. -/
def clock (t0 : UInt32) (v : ℕ → UInt32) : ℕ → UInt32
  | 0 => t0
  | k + 1 => clock t0 v k + v k

/-- The status register at an edge of the DHT pin, with the bits of other pins. -/
def edgeStatus (other : UInt32) : UInt32 := dhtPinBit ||| other

section Runs

variable (other v : ℕ → UInt32) (t0 : UInt32)

/-- The driver of orai_munka after the first edges of a capture. -/
def capture (b : Board) : ℕ → Board
  | 0 => DhtCalls.dhtGpioCbkSetup t0 b
  | k + 1 => dhtGpioCbk (edgeStatus (other k)) (clock t0 v (k + 1)) (clock t0 v (k + 1)) (capture b k)

/-- The driver of the development firmware, with what its handler did so far. -/
def devCapture (d : DevDht.Driver) : ℕ → DevDht.Driver × List DevDht.Op
  | 0 => (DevDht.dhtGpioCbkSetup t0 d, [])
  | k + 1 =>
    let before := devCapture d k
    let after := DevDht.dhtGpioCbk (edgeStatus (other k)) (clock t0 v (k + 1)) (clock t0 v (k + 1)) before.1
    (after.1, before.2 ++ after.2)

end Runs

/-! ### The recorders -/

section Recorders

variable (other v : ℕ → UInt32) (t0 : UInt32) (b : Board) (d : DevDht.Driver)

theorem clock_succ_sub (k : ℕ) : clock t0 v (k + 1) - clock t0 v k = v k := by
  rw [clock, UInt32.add_comm, UInt32.add_sub_cancel]

theorem edgeStatus_dht (o : UInt32) : edgeStatus o &&& dhtPinBit ≠ 0 := by
  intro h
  have hbit := congrArg (fun s : UInt32 => s.toBitVec.getLsbD 14) h
  simp only [edgeStatus, UInt32.toBitVec_and, UInt32.toBitVec_or, BitVec.getLsbD_and, BitVec.getLsbD_or] at hbit
  rw [show dhtPinBit.toBitVec.getLsbD 14 = true by decide] at hbit
  exact absurd hbit (by simp)

/-- An index below 42 counts up without a wrap. -/
theorem idx_succ {i : UInt8} {k : ℕ} (hi : i.toNat = k) (hk : k < 42) : (i + 1).toNat = k + 1 := by
  rw [UInt8.toNat_add, hi]
  exact Nat.mod_eq_of_lt (show k + 1 < 256 by omega)

/-- Where a capture is after `k` edges: the index, the intervals stored, and the time of the last edge. -/
structure Recorded {α : Type*} (cell : ℕ → α) (zero : α) (k : ℕ) (idx : UInt8) (r : Vector α 42)
    (offset : UInt32) : Prop where
  idx : idx.toNat = k
  cells : r = fill (Vector.replicate 42 zero) cell k
  offset : offset = clock t0 v k

variable {v t0} in
/-- One edge more. -/
theorem Recorded.step {α : Type*} {cell : ℕ → α} {zero : α} {k : ℕ} {idx : UInt8} {r : Vector α 42}
    {offset : UInt32} (h : Recorded v t0 cell zero k idx r offset) (hk : k < 42) {x : α} (hx : x = cell k) :
    Recorded v t0 cell zero (k + 1) (idx + 1) (r.setIfInBounds idx.toNat x) (clock t0 v (k + 1)) where
  idx := idx_succ h.idx hk
  cells := by rw [fill, ← h.cells, h.idx, hx]
  offset := rfl

variable {v t0} in
/-- The edge ends the capture if it is the 42nd. -/
theorem Recorded.last_iff {α : Type*} {cell : ℕ → α} {zero : α} {k : ℕ} {idx : UInt8} {r : Vector α 42}
    {offset : UInt32} (h : Recorded v t0 cell zero k idx r offset) (hk : k < 42) : 41 < idx + 1 ↔ k = 41 := by
  rw [UInt8.lt_iff_toNat_lt, idx_succ h.idx hk]
  change 41 < k + 1 ↔ k = 41
  omega

/-- The intervals of orai_munka, cut to bytes. -/
theorem capture_recorded {k : ℕ} (hk : k < 42) :
    Recorded v t0 (fun i => (v i).toUInt8) 0 k (capture other v t0 b k).dhtResultIdx
      (capture other v t0 b k).dhtResult (capture other v t0 b k).dhtTimeOffset := by
  induction k with
  | zero => exact ⟨rfl, rfl, rfl⟩
  | succ k ih =>
    have h := ih (by omega)
    have hopen := mt (h.last_iff (by omega)).mp (show k ≠ 41 by omega)
    rw [capture, dhtGpioCbk_open _ _ _ _ (edgeStatus_dht _) hopen]
    exact h.step (by omega) (by simp only [Board.setState, h.offset, clock_succ_sub])

theorem capture_result : (capture other v t0 b 42).dhtResult = fill (Vector.replicate 42 0) (fun i => (v i).toUInt8) 42 := by
  have h := capture_recorded other v t0 b (show 41 < 42 by decide)
  have hlast := (h.last_iff (by decide)).mpr rfl
  rw [capture, dhtGpioCbk_of_last _ _ _ _ (by simp [lastEdge, edgeStatus_dht, hlast]), (finish_keeps _).1]
  exact (h.step (by decide) (by simp only [Board.setState, h.offset, clock_succ_sub])).cells

/-- The development driver has stored at the indices from 0 on, and nothing else. -/
theorem devCapture_recorded {k : ℕ} (hk : k < 42) :
    Recorded v t0 v 0 k (devCapture other v t0 d k).1.dhtResultIdx (devCapture other v t0 d k).1.dhtResult
        (devCapture other v t0 d k).1.dhtTimeOffset ∧
      (devCapture other v t0 d k).2 = (List.range k).map .store := by
  induction k with
  | zero => exact ⟨⟨rfl, rfl, rfl⟩, rfl⟩
  | succ k ih =>
    obtain ⟨h, hops⟩ := ih (by omega)
    have hopen := mt (h.last_iff (by omega)).mp (show k ≠ 41 by omega)
    rw [devCapture, DevDht.dhtGpioCbk_open _ _ _ (edgeStatus_dht _) hopen]
    refine ⟨h.step (by omega) (by simp only [DevDht.Driver.setState, h.offset, clock_succ_sub]), ?_⟩
    simp only [hops, h.idx, List.range_succ, List.map_append, List.map_cons, List.map_nil]

theorem devCapture_last :
    ∃ d' : DevDht.Driver, d'.dhtResult = fill (Vector.replicate 42 0) v 42 ∧
      devCapture other v t0 d 42 = (DevDht.finish d', (List.range 42).map .store ++ .dhtProcess :: DevDht.loads) := by
  obtain ⟨h, hops⟩ := devCapture_recorded other v t0 d (show 41 < 42 by decide)
  have hlast := (h.last_iff (by decide)).mpr rfl
  refine ⟨DevDht.record (clock t0 v 42) (clock t0 v 42) ((devCapture other v t0 d 41).1.setState .meas), ?_, ?_⟩
  · exact (h.step (by decide) (by simp only [DevDht.Driver.setState, h.offset, clock_succ_sub])).cells
  · rw [devCapture, DevDht.dhtGpioCbk_last _ _ _ (edgeStatus_dht _) hlast]
    simp only [hops, h.idx]
    rfl

end Recorders

/-! ### The bytes -/

section Bytes

variable (v : ℕ → UInt32)

theorem resultByte_eq (long : ℕ → Bool) (bytes : ℕ) :
    resultByte long bytes = byteOf fun k => long (2 + 8 * bytes + k) := rfl

/-- Byte `bytes` of a capture: its bits are the long ones of its eight intervals. -/
theorem result_fill (r : Vector UInt8 42) {bytes : ℕ} (hb : bytes < 5) :
    result (fill r (fun i => (v i).toUInt8) 42) bytes =
      byteOf fun k => decide (100 < (v (2 + 8 * bytes + k)).toUInt8) := by
  rw [result, resultByte_eq, byteOf_inj]
  intro k hk
  rw [longBit, getD_fill r _ (by omega) (by omega)]

theorem dev_result_fill (r : Vector UInt32 42) {bytes : ℕ} (hb : bytes < 5) :
    DevDht.result (fill r v 42) bytes = byteOf fun k => decide (100 < v (2 + 8 * bytes + k)) := by
  rw [DevDht.result, resultByte_eq, byteOf_inj]
  intro k hk
  rw [DevDht.longBit, getD_fill r _ (by omega) (by omega)]

end Bytes

/-! ### The two drivers -/

/-- The low byte of an interval and the interval agree on the bit. -/
theorem long_toUInt8_iff (x : UInt32) :
    (decide (100 < x.toUInt8) = decide (100 < x)) ↔ (x ≤ 100 ∨ 100 < x % 256) := by
  rw [decide_eq_decide, UInt8.lt_iff_toNat_lt, UInt32.lt_iff_toNat_lt, UInt32.le_iff_toNat_le,
    UInt32.lt_iff_toNat_lt, UInt32.toNat_toUInt8, UInt32.toNat_mod]
  change (100 < x.toNat % 256 ↔ 100 < x.toNat) ↔ (x.toNat ≤ 100 ∨ 100 < x.toNat % 256)
  omega

/-- **Where the two drivers decode alike.** After the same 42 intervals their
five bytes are equal if and only if no data interval over 100 has a low byte of
100 or less. -/
theorem drivers_alike_iff (other other' v : ℕ → UInt32) (t0 t0' : UInt32) (b : Board) (d : DevDht.Driver) :
    (∀ i < 5, result (capture other v t0 b 42).dhtResult i =
        DevDht.result (devCapture other' v t0' d 42).1.dhtResult i) ↔
      ∀ i, 2 ≤ i → i < 42 → v i ≤ 100 ∨ 100 < v i % 256 := by
  obtain ⟨d', hd, hdev⟩ := devCapture_last other' v t0' d
  rw [capture_result, hdev, DevDht.finish_dhtResult, hd]
  constructor
  · intro h i h2 h42
    have hbyte := h ((i - 2) / 8) (by omega)
    rw [result_fill v _ (by omega), dev_result_fill v _ (by omega), byteOf_inj] at hbyte
    have hbit := (long_toUInt8_iff _).mp (hbyte ((i - 2) % 8) (by omega))
    rwa [show 2 + 8 * ((i - 2) / 8) + (i - 2) % 8 = i by omega] at hbit
  · intro h i hi
    rw [result_fill v _ hi, dev_result_fill v _ hi, byteOf_inj]
    exact fun k hk => (long_toUInt8_iff _).mpr (h _ (by omega) (by omega))

/-- A first data interval of 300 is long; its low byte is 44. -/
theorem stretched_pulse_differs :
    ¬ ∀ (v : ℕ → UInt32) (t0 : UInt32), ∀ i < 5, result (capture (fun _ => 0) v t0 .reset 42).dhtResult i =
        DevDht.result (devCapture (fun _ => 0) v t0 .reset 42).1.dhtResult i := by
  intro h
  have h0 := h (fun k => if k = 2 then 300 else 50) 0 0 (by decide)
  revert h0
  decide +kernel

/-! ### The reading -/

section Reading

variable (hi lo : UInt8)

theorem raw16_toNat : (raw16 hi lo).toNat = 256 * hi.toNat + lo.toNat := by
  have hlo : lo.toNat < 2 ^ 8 := lo.toNat_lt
  have hhi : hi.toNat < 2 ^ 8 := hi.toNat_lt
  have hshift : (hi.toUInt16 <<< 8).toNat = hi.toNat <<< 8 := by
    rw [UInt16.toNat_shiftLeft, UInt8.toNat_toUInt16]
    refine Nat.mod_eq_of_lt ?_
    change hi.toNat <<< 8 < 2 ^ 16
    rw [Nat.shiftLeft_eq]
    omega
  rw [raw16, UInt16.toNat_or, hshift, UInt8.toNat_toUInt16, ← Nat.shiftLeft_add_eq_or_of_lt hlo, Nat.shiftLeft_eq,
    Nat.mul_comm]

theorem humOf_raw16 : humOf (raw16 hi lo) = ((256 * hi.toNat + lo.toNat : ℕ) : ℚ) / 10 := by
  rw [humOf, raw16_toNat]

/-- The top bit of the first byte is the top bit of the two. -/
theorem bitOf_zero : bitOf hi 0 = decide (2 ^ 15 ≤ 256 * hi.toNat + lo.toNat) := by
  have hlo : lo.toNat < 2 ^ 8 := lo.toNat_lt
  have hhi : hi.toNat < 2 ^ 8 := hi.toNat_lt
  change hi.toNat.testBit 7 = _
  rw [Nat.testBit_eq_decide_div_mod_eq, decide_eq_decide]
  omega

theorem raw16_sign : raw16 hi lo &&& 0x8000 ≠ 0 ↔ bitOf hi 0 = true := by
  have hlt : (raw16 hi lo).toNat < 2 ^ 16 := (raw16 hi lo).toNat_lt
  rw [raw16_toNat] at hlt
  rw [bitOf_zero hi lo, decide_eq_true_iff, Ne, ← UInt16.toNat_inj, UInt16.toNat_and, raw16_toNat]
  change ¬ (256 * hi.toNat + lo.toNat) &&& 2 ^ 15 = 0 ↔ _
  have hbit : (256 * hi.toNat + lo.toNat).testBit 15 = decide (2 ^ 15 ≤ 256 * hi.toNat + lo.toNat) := by
    rw [Nat.testBit_eq_decide_div_mod_eq, decide_eq_decide]
    omega
  rw [Nat.and_two_pow, hbit]
  simp

theorem tempOf_raw16 : tempOf (raw16 hi lo) =
    (if bitOf hi 0 then -1 else 1) * (((256 * hi.toNat + lo.toNat) % 2 ^ 15 : ℕ) : ℚ) / 10 := by
  have hmod : (raw16 hi lo &&& 0x7fff).toNat = (256 * hi.toNat + lo.toNat) % 2 ^ 15 := by
    rw [UInt16.toNat_and, raw16_toNat]
    exact Nat.and_two_pow_sub_one_eq_mod _ 15
  rw [tempOf, if_congr (raw16_sign hi lo) rfl rfl, hmod, raw16_toNat]
  by_cases hb : bitOf hi 0 = true
  · rw [if_pos hb, if_pos hb]
    ring
  · have hlt : 256 * hi.toNat + lo.toNat < 2 ^ 15 := by simpa [bitOf_zero hi lo] using hb
    rw [if_neg hb, if_neg hb, Nat.mod_eq_of_lt hlt]
    ring

end Reading

/-! ### From a frame to its reading -/

/-- The intervals are those of the frame: two before it, then one for each bit,
the most significant bit of byte 0 first. -/
def Shows (v : ℕ → UInt32) (frame : Vector UInt8 5) : Prop :=
  ∀ i : Fin 40, 100 < v (i + 2) ↔ bitOf (frame.get ⟨i / 8, by omega⟩) (i % 8) = true

instance (v : ℕ → UInt32) (frame : Vector UInt8 5) : Decidable (Shows v frame) :=
  Nat.decidableForallFin _

theorem Shows.byte {v : ℕ → UInt32} {frame : Vector UInt8 5} (h : Shows v frame) (r : Vector UInt32 42)
    (j : Fin 5) : DevDht.result (fill r v 42) j = frame.get j := by
  rw [dev_result_fill v r j.isLt]
  refine byte_ext fun k hk => ?_
  rw [bitOf_byteOf _ hk]
  have hbit := h ⟨8 * j + k, by omega⟩
  have hj : (8 * (j : ℕ) + k) / 8 = j := by omega
  have hk8 : (8 * (j : ℕ) + k) % 8 = k := by omega
  simp only [hj, hk8, show 8 * (j : ℕ) + k + 2 = 2 + 8 * j + k by omega] at hbit
  rw [Bool.eq_iff_iff, decide_eq_true_iff]
  exact hbit

/-- The index that an operation uses. -/
def index : DevDht.Op → ℕ
  | .store i | .load i => i
  | .dhtProcess => 0

/-- The indices that a whole capture uses. -/
theorem ops_index (i : ℕ) (h : .store i ∈ (List.range 42).map DevDht.Op.store ++ .dhtProcess :: DevDht.loads ∨
    .load i ∈ (List.range 42).map DevDht.Op.store ++ .dhtProcess :: DevDht.loads) : i ≤ 41 := by
  have hall : ∀ op ∈ (List.range 42).map DevDht.Op.store ++ .dhtProcess :: DevDht.loads, index op ≤ 41 := by decide
  exact h.elim (fun hm => hall _ hm) fun hm => hall _ hm

/-- **From a frame to its reading.** On intervals that show a frame, from any
state and any time, the handler stores at the indices from 0 to 41 in turn and
calls `DhtProcess` once, after the last store; no other index is used, the bytes
decoded are the frame, and the values stored are those it stands for. -/
theorem devCapture_frame (other v : ℕ → UInt32) (t0 : UInt32) (d : DevDht.Driver) (frame : Vector UInt8 5)
    (hv : Shows v frame) :
    (∀ k < 42, (devCapture other v t0 d k).2 = (List.range k).map .store) ∧
      (devCapture other v t0 d 42).2 = (List.range 42).map .store ++ .dhtProcess :: DevDht.loads ∧
      (∀ i, .store i ∈ (devCapture other v t0 d 42).2 ∨ .load i ∈ (devCapture other v t0 d 42).2 → i ≤ 41) ∧
      (∀ j : Fin 5, DevDht.result (devCapture other v t0 d 42).1.dhtResult j = frame.get j) ∧
      (devCapture other v t0 d 42).1.dhtHandle.dhtHum =
        ((256 * (frame.get 0).toNat + (frame.get 1).toNat : ℕ) : ℚ) / 10 ∧
      (devCapture other v t0 d 42).1.dhtHandle.dhtTemp =
        (if bitOf (frame.get 2) 0 then -1 else 1) *
          (((256 * (frame.get 2).toNat + (frame.get 3).toNat) % 2 ^ 15 : ℕ) : ℚ) / 10 := by
  obtain ⟨d', hd, hdev⟩ := devCapture_last other v t0 d
  have hbyte : ∀ j : Fin 5, DevDht.result d'.dhtResult j = frame.get j := fun j => hd ▸ hv.byte _ j
  rw [hdev]
  refine ⟨fun k hk => (devCapture_recorded other v t0 d hk).2, rfl, ops_index, fun j => ?_, ?_, ?_⟩
  · rw [DevDht.finish_dhtResult, hbyte]
  · rw [DevDht.finish_dhtHum, ← humOf_raw16, ← hbyte 0, ← hbyte 1]
    rfl
  · rw [DevDht.finish_dhtTemp, ← tempOf_raw16, ← hbyte 2, ← hbyte 3]
    rfl

/-- The intervals of a sensor: 120 µs for a one, 76 µs for a zero. -/
def intervals (frame : Vector UInt8 5) (k : ℕ) : UInt32 :=
  if bitOf (frame.toArray.getD ((k - 2) / 8) 0) ((k - 2) % 8) then 120 else 76

/-- 65.2 % and -10.1 °C, on a clock that wraps after 2 ms. -/
theorem devCapture_frame_winter :
    Shows (intervals #v[0x02, 0x8c, 0x80, 0x65, 0x73]) #v[0x02, 0x8c, 0x80, 0x65, 0x73] ∧
      (devCapture (fun _ => 0) (intervals #v[0x02, 0x8c, 0x80, 0x65, 0x73]) 0xfffff830 .reset 42).1.dhtHandle.dhtHum =
        652 / 10 ∧
      (devCapture (fun _ => 0) (intervals #v[0x02, 0x8c, 0x80, 0x65, 0x73]) 0xfffff830 .reset 42).1.dhtHandle.dhtTemp =
        -101 / 10 := by
  have hv : Shows (intervals #v[0x02, 0x8c, 0x80, 0x65, 0x73]) #v[0x02, 0x8c, 0x80, 0x65, 0x73] := by decide
  obtain ⟨-, -, -, -, hhum, htemp⟩ := devCapture_frame (fun _ => 0) _ 0xfffff830 .reset _ hv
  refine ⟨hv, hhum.trans ?_, htemp.trans ?_⟩
  · change ((652 : ℕ) : ℚ) / 10 = 652 / 10
    norm_num
  · change -1 * ((101 : ℕ) : ℚ) / 10 = -101 / 10
    norm_num

/-! ### The checksum -/

/-- The driver of orai_munka takes the capture: `dhtProcess` leaves the state
and the queue as they are. -/
def Accepts (r : Vector UInt8 42) : Prop :=
  ∀ b : Board, b.dhtResult = r →
    (dhtProcess b).dhtHandle.state = b.dhtHandle.state ∧ (dhtProcess b).mainTaskQ = b.mainTaskQ

/-- The same of the development driver. -/
def DevAccepts (r : Vector UInt32 42) : Prop :=
  ∀ d : DevDht.Driver, d.dhtResult = r →
    (DevDht.dhtProcess d).dhtHandle.state = d.dhtHandle.state ∧
      (DevDht.dhtProcess d).mainTaskQ = d.mainTaskQ

/-- A driver takes a capture exactly in its parity-ok branch: the other one sets
`ERR` and posts. -/
theorem accepts_iff (r : Vector UInt8 42) : Accepts r ↔ parityOk r = true := by
  constructor
  · intro h
    have hst := (h { Board.reset with dhtResult := r } rfl).1
    by_contra hp
    simp [dhtProcess, hp, Board.reset] at hst
  · rintro hp b rfl
    simp [dhtProcess, hp]

theorem devAccepts_iff (r : Vector UInt32 42) : DevAccepts r ↔ DevDht.parityOk r = true := by
  constructor
  · intro h
    have hst := (h { DevDht.Driver.reset with dhtResult := r } rfl).1
    by_contra hp
    simp [DevDht.dhtProcess, hp, DevDht.Driver.reset] at hst
  · rintro hp d rfl
    simp [DevDht.dhtProcess, hp]

/-- The sum of the first four bytes. -/
def sum4 (bytes : ℕ → UInt8) : ℕ :=
  (bytes 0).toNat + (bytes 1).toNat + (bytes 2).toNat + (bytes 3).toNat

/-- The checksum of the sensor: the fifth byte is the low 8 bits of the sum. -/
def Checksum (bytes : ℕ → UInt8) : Prop := (bytes 4).toNat = sum4 bytes % 256

instance (bytes : ℕ → UInt8) : Decidable (Checksum bytes) := inferInstanceAs (Decidable (_ = _))

/-- The sum fits a byte, or the fifth byte is not its low 8 bits. -/
def Fits (bytes : ℕ → UInt8) : Prop := sum4 bytes < 256 ∨ (bytes 4).toNat ≠ sum4 bytes % 256

/-- The comparison as `int`s is the checksum where no carry is lost. -/
theorem sum_eq_iff_checksum (bytes : ℕ → UInt8) :
    ((sum4 bytes == (bytes 4).toNat) = true ↔ Checksum bytes) ↔ Fits bytes := by
  have h4 : (bytes 4).toNat < 256 := (bytes 4).toNat_lt
  rw [beq_iff_eq, Checksum, Fits]
  omega

/-- **When a frame is taken by its checksum.** In both drivers, acceptance is the
checksum if and only if the sum of the first four bytes fits a byte or the
fifth byte is wrong anyway. -/
theorem accepts_checksum_iff (r : Vector UInt8 42) (r' : Vector UInt32 42) :
    ((Accepts r ↔ Checksum (result r)) ↔ Fits (result r)) ∧
      ((DevAccepts r' ↔ Checksum (DevDht.result r')) ↔ Fits (DevDht.result r')) := by
  constructor
  · rw [accepts_iff]
    exact sum_eq_iff_checksum (result r)
  · rw [devAccepts_iff]
    exact sum_eq_iff_checksum (DevDht.result r')

/-- 90.0 % and 25.0 °C: the four bytes sum up to 385, the fifth byte is 129, and
neither driver takes the frame. -/
theorem carry_refused :
    (¬ ∀ r : Vector UInt8 42, Accepts r ↔ Checksum (result r)) ∧
      ¬ ∀ r : Vector UInt32 42, DevAccepts r ↔ Checksum (DevDht.result r) := by
  refine ⟨fun h => ?_, fun h => ?_⟩
  · have hr := h (Vector.ofFn fun k => (intervals #v[0x03, 0x84, 0x00, 0xfa, 0x81] k).toUInt8)
    rw [accepts_iff] at hr
    revert hr
    decide +kernel
  · have hr := h (Vector.ofFn fun k => intervals #v[0x03, 0x84, 0x00, 0xfa, 0x81] k)
    rw [devAccepts_iff] at hr
    revert hr
    decide +kernel

end DhtCapture
end Netacademia
