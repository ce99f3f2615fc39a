/-
# Burst reads of a sensor

`user_mvh3004_burst_read` of `examples/IoT_Demo`, on the I2C master of `I2cMaster`. The
sensor is a device that acknowledges an address or does not, and puts out the bytes of a
read one after the other as long as the master wants them.

`burst_reads`: however the sensor was left, after `i2c_master_gpio_init` every burst read
returns its bytes, or nothing if it does not acknowledge, and leaves the bus free.
-/
import Netacademia.I2cMaster

namespace Netacademia
namespace Mvh3004

open Lib I2c I2cMaster

/-- `user_mvh3004_burst_read`; the bytes of `pData` where it returns true. -/
def burstRead {σ : Type*} (D : Device σ) (addr : UInt8) (len : UInt16) (m : Master σ) : Option (List UInt8) × Master σ :=
  let m := start D m
  let m := writeByte D addr m
  let (ack, m) := getAck D m
  if ack ≠ 0 then (none, stop D m)
  else
    let m := stop D m
    let m := start D m
    let m := writeByte D (addr + 1) m
    let (ack, m) := getAck D m
    if ack ≠ 0 then (none, stop D m)
    else
      let (pData, m) := (List.range len.toNat).foldl (fun (r : List UInt8 × Master σ) i =>
        let (b, m) := readByte D r.2
        (r.1 ++ [b], setAck D (if i = len.toNat - 1 then 1 else 0) m)) ([], m)
      (some pData, stop D m)

/-! ### The sensor -/

inductive Phase
  | idle
  | address (bits : List Bool)
  | acknowledge (addr : UInt8)
  /-- It puts out bit `k` of its byte `n`. -/
  | sending (n k : ℕ)
  /-- It waits whether the master wants another byte after byte `n`. -/
  | sent (n : ℕ)

structure Sensor where
  phase : Phase
  /-- The STOPs so far. -/
  stops : ℕ

/-- Whether it acknowledges an address, and its bytes, for each message. -/
structure Answer where
  acks : ℕ → UInt8 → Bool
  data : ℕ → ℕ → UInt8

variable (A : Answer)

def Sensor.next (q : Sensor) : Symbol → Sensor
  | .start => { q with phase := .address [] }
  | .stop => ⟨.idle, q.stops + 1⟩
  | .bit b =>
    match q.phase with
    | .idle => q
    | .address bs =>
      if 7 ≤ bs.length then { q with phase := .acknowledge (byteOf fun k => (bs ++ [b]).getD k false) }
      else { q with phase := .address (bs ++ [b]) }
    | .acknowledge addr => { q with phase := if A.acks q.stops addr && odd addr then .sending 0 0 else .idle }
    | .sending n k => { q with phase := if 7 ≤ k then .sent n else .sending n (k + 1) }
    | .sent n => { q with phase := if b then .idle else .sending (n + 1) 0 }

def Sensor.level (q : Sensor) : Bool :=
  match q.phase with
  | .acknowledge addr => !A.acks q.stops addr
  | .sending n k => bitOf (A.data q.stops n) k
  | .idle => true
  | .address _ => true
  | .sent _ => true

/-- It sends on a read address, an odd one, and takes a write address for a request. -/
def sensor : Device Sensor := ⟨Sensor.next A, Sensor.level A⟩

/-- The burst reads one after the other. -/
def burstReads : List (UInt8 × UInt16) → Master Sensor → List (Option (List UInt8))
  | [], _ => []
  | r :: rs, m =>
    let t := burstRead (sensor A) r.1 r.2 m
    t.1 :: burstReads rs t.2

/-- What a sensor answers to the burst reads, from its message `n` on. -/
def answers : List (UInt8 × UInt16) → ℕ → List (Option (List UInt8))
  | [], _ => []
  | r :: rs, n =>
    if A.acks n r.1 then
      (if A.acks (n + 1) (r.1 + 1) then some ((List.range r.2.toNat).map (A.data (n + 1))) else none) ::
        answers rs (n + 2)
    else none :: answers rs (n + 1)

/-! ### The bits of the sensor -/

variable {A}

/-- The bits that the sensor needs at most to be idle, if they are ones. -/
def Phase.todo : Phase → ℕ
  | idle => 0
  | sent _ => 1
  | sending _ k => 2 + (7 - k)
  | acknowledge _ => 10
  | address bs => 11 + (7 - bs.length)

theorem next_stops (q : Sensor) (b : Bool) : ((sensor A).next q (.bit b)).stops = q.stops := by
  show (Sensor.next A q (.bit b)).stops = q.stops
  unfold Sensor.next
  split
  · contradiction
  · contradiction
  · split
    · rfl
    · split <;> rfl
    · rfl
    · rfl
    · rfl

theorem todo_next (q : Sensor) :
    ((sensor A).next q (.bit ((sensor A).level q))).phase.todo ≤ q.phase.todo - 1 := by
  obtain ⟨phase, n⟩ := q
  cases phase with
  | idle => exact Nat.le_refl 0
  | address bs =>
    show (Sensor.next A _ _).phase.todo ≤ _
    simp only [Sensor.next]
    split
    · simp only [Phase.todo]
      omega
    · simp only [Phase.todo, List.length_append, List.length_singleton]
      omega
  | acknowledge addr =>
    show (Sensor.next A _ _).phase.todo ≤ _
    simp only [Sensor.next]
    split
    · exact Nat.le_refl 9
    · exact Nat.zero_le 9
  | sending j k =>
    show (Sensor.next A _ _).phase.todo ≤ _
    simp only [Sensor.next]
    split
    · simp only [Phase.todo]
      omega
    · simp only [Phase.todo]
      omega
  | sent j => exact Nat.le_refl 0

theorem idle_of_todo {p : Phase} (h : p.todo = 0) : p = .idle := by
  cases p with
  | idle => rfl
  | address bs => simp [Phase.todo] at h
  | acknowledge addr => simp [Phase.todo] at h
  | sending n k => simp [Phase.todo] at h
  | sent n => simp [Phase.todo] at h

/-- Ones let the sensor go. -/
theorem exchange_ones (n : ℕ) (q : Sensor) (hn : q.phase.todo ≤ n) :
    (exchange (sensor A) q (List.replicate n true)).2 = ⟨.idle, q.stops⟩ := by
  induction n generalizing q with
  | zero =>
    obtain ⟨phase, m⟩ := q
    obtain rfl := idle_of_todo (Nat.le_zero.mp hn)
    rfl
  | succ n ih =>
    have h1 := todo_next (A := A) q
    rw [List.replicate_succ, exchange, Bool.true_and, ih _ (by omega), next_stops]

/-- The address is read from the bus. -/
theorem exchange_address (n : ℕ) (ds bs : List Bool) (hd : ds ≠ []) (hlen : bs.length + ds.length = 8) :
    exchange (sensor A) ⟨.address bs, n⟩ ds =
      (ds, ⟨.acknowledge (byteOf fun k => (bs ++ ds).getD k false), n⟩) := by
  induction ds generalizing bs with
  | nil => exact absurd rfl hd
  | cons d ds ih =>
    have hlevel : (sensor A).level ⟨.address bs, n⟩ = true := rfl
    have hnext : (sensor A).next ⟨.address bs, n⟩ (.bit d) =
        if 7 ≤ bs.length then ⟨.acknowledge (byteOf fun k => (bs ++ [d]).getD k false), n⟩
        else ⟨.address (bs ++ [d]), n⟩ := rfl
    rw [exchange, hlevel, Bool.and_true, hnext]
    cases ds with
    | nil =>
      rw [if_pos (by simp at hlen; omega)]
      rfl
    | cons d' ds =>
      rw [if_neg (by simp at hlen; omega), ih (bs ++ [d]) (List.cons_ne_nil _ _) (by simp at hlen ⊢; omega),
        List.append_assoc]
      rfl

theorem byteOf_bits (w : UInt8) : (byteOf fun k => ((List.range 8).map (bitOf w)).getD k false) = w := by
  apply byte_ext
  intro k hk
  rw [bitOf_byteOf _ hk]
  simp [hk]

/-- The rest of a byte is put out. -/
theorem exchange_sending (j n : ℕ) {k m : ℕ} (hk : k + m = 7) :
    exchange (sensor A) ⟨.sending j k, n⟩ (List.replicate (m + 1) true) =
      ((List.range' k (m + 1)).map (bitOf (A.data n j)), ⟨.sent j, n⟩) := by
  have hnext (k : ℕ) (b : Bool) : (sensor A).next ⟨.sending j k, n⟩ (.bit b) =
      ⟨if 7 ≤ k then .sent j else .sending j (k + 1), n⟩ := rfl
  induction m generalizing k with
  | zero =>
    rw [List.replicate_succ, exchange, Bool.true_and, hnext, if_pos (by omega)]
    rfl
  | succ m ih =>
    rw [List.replicate_succ, exchange, Bool.true_and, hnext, if_neg (by omega), ih (by omega), List.range'_succ]
    rfl

/-! ### The burst reads -/

variable {m : Master Sensor}

/-- A START, an address and the answer to it. -/
theorem address_eq {q : Sensor} (hm : Free q m) (addr : UInt8) :
    (getAck (sensor A) (writeByte (sensor A) addr (start (sensor A) m))).1 = bit !A.acks q.stops addr ∧
      At (sensor A) ⟨if A.acks q.stops addr && odd addr then .sending 0 0 else .idle, q.stops⟩
        (getAck (sensor A) (writeByte (sensor A) addr (start (sensor A) m))).2 := by
  have hex := exchange_address (A := A) q.stops (ByteCall.writeByte addr).bits [] (List.cons_ne_nil _ _) rfl
  obtain ⟨-, h1⟩ := hm.start.call (.writeByte addr)
  rw [show (sensor A).next q .start = ⟨.address [], q.stops⟩ from rfl, hex, List.nil_append, ByteCall.bits,
    byteOf_bits] at h1
  obtain ⟨h2, h3⟩ := h1.call .getAck
  exact ⟨Option.some.inj h2, h3⟩

/-- A byte, and the answer of the master to it. -/
theorem byte_eq {j n : ℕ} (hm : At (sensor A) ⟨.sending j 0, n⟩ m) (level : UInt8) :
    (readByte (sensor A) m).1 = A.data n j ∧
      At (sensor A) ⟨if odd level then .idle else .sending (j + 1) 0, n⟩
        (setAck (sensor A) level (readByte (sensor A) m).2) := by
  have hex := exchange_sending (A := A) j n (k := 0) (m := 7) rfl
  obtain ⟨h1, h2⟩ := hm.call .readByte
  rw [ByteCall.bits, hex, ← List.range_eq_range'] at h1 h2
  rw [ByteCall.value, byteOf_bits] at h1
  obtain ⟨-, h3⟩ := h2.call (.setAck level)
  rw [ByteCall.bits, exchange, exchange, show (sensor A).level ⟨.sent j, n⟩ = true from rfl, Bool.and_true] at h3
  exact ⟨Option.some.inj h1, h3⟩

variable (A) in
/-- An iteration of the loop of `user_mvh3004_burst_read`. -/
def readStep (len : UInt16) (r : List UInt8 × Master Sensor) (i : ℕ) : List UInt8 × Master Sensor :=
  let b := readByte (sensor A) r.2
  (r.1 ++ [b.1], setAck (sensor A) (if i = len.toNat - 1 then 1 else 0) b.2)

theorem reads_eq {n : ℕ} (hm : At (sensor A) ⟨.sending 0 0, n⟩ m) {len : UInt16} (hl : 0 < len.toNat) {k : ℕ}
    (hk : k ≤ len.toNat) :
    ((List.range k).foldl (readStep A len) ([], m)).1 = (List.range k).map (A.data n) ∧
      At (sensor A) ⟨if k = len.toNat then .idle else .sending k 0, n⟩
        ((List.range k).foldl (readStep A len) ([], m)).2 := by
  induction k with
  | zero => exact ⟨rfl, by rwa [if_neg (by omega)]⟩
  | succ k ih =>
    obtain ⟨h1, h2⟩ := ih (by omega)
    rw [if_neg (by omega)] at h2
    obtain ⟨h3, h4⟩ := byte_eq h2 (if k = len.toNat - 1 then 1 else 0)
    rw [List.range_succ, List.foldl_append, List.foldl_cons, List.foldl_nil, List.map_append]
    refine ⟨?_, ?_⟩
    · rw [readStep, h1, h3]
      rfl
    · have hlast : (if k + 1 = len.toNat then Phase.idle else .sending (k + 1) 0) =
          if odd (if k = len.toNat - 1 then 1 else 0) then .idle else .sending (k + 1) 0 := by
        by_cases hk1 : k + 1 = len.toNat
        · rw [if_pos hk1, if_pos (by omega : k = len.toNat - 1), odd_one, if_pos rfl]
        · rw [if_neg hk1, if_neg (by omega : ¬ k = len.toNat - 1), odd_zero, if_neg Bool.false_ne_true]
      rw [hlast]
      exact h4

theorem bit_not (b : Bool) : bit (!b) ≠ 0 ↔ b = false := by cases b <;> decide

theorem odd_succ {w : UInt8} (hw : odd w = false) : odd (w + 1) = true := by
  have hw := of_decide_eq_false ((odd_eq w).symm.trans hw)
  rw [odd_eq, decide_eq_true_eq, UInt8.toNat_add]
  show (w.toNat + 1) % 256 % 2 = 1
  omega

/-- A burst read on a free bus. -/
theorem burstRead_eq {n : ℕ} (hm : Free ⟨.idle, n⟩ m) {addr : UInt8} (ha : odd addr = false) {len : UInt16}
    (hl : 0 < len.toNat) :
    (burstRead (sensor A) addr len m).1 =
        (if A.acks n addr then
          if A.acks (n + 1) (addr + 1) then some ((List.range len.toNat).map (A.data (n + 1))) else none
        else none) ∧
      Free ⟨.idle, if A.acks n addr then n + 2 else n + 1⟩ (burstRead (sensor A) addr len m).2 := by
  obtain ⟨h1, h2⟩ := address_eq (A := A) hm addr
  rw [ha, Bool.and_false, if_neg Bool.false_ne_true] at h2
  have h3 : Free ⟨.idle, n + 1⟩ (stop (sensor A) _) := h2.stop rfl
  unfold burstRead
  simp only [h1, bit_not]
  cases hack : A.acks n addr with
  | false => exact ⟨rfl, h3⟩
  | true =>
    obtain ⟨h4, h5⟩ := address_eq (A := A) h3 (addr + 1)
    simp only [h4, bit_not, odd_succ ha, Bool.and_true] at h5 ⊢
    cases hack' : A.acks (n + 1) (addr + 1) with
    | false =>
      rw [hack', if_neg Bool.false_ne_true] at h5
      exact ⟨rfl, h5.stop rfl⟩
    | true =>
      rw [hack', if_pos rfl] at h5
      obtain ⟨h6, h7⟩ := reads_eq h5 hl (Nat.le_refl _)
      rw [if_pos rfl] at h7
      exact ⟨congrArg some h6, h7.stop rfl⟩

/-- However the sensor was left, the reads after the reset are its answers. -/
theorem burst_reads (dev : Sensor) (rs : List (UInt8 × UInt16))
    (hr : ∀ r ∈ rs, odd r.1 = false ∧ 0 < r.2.toNat) :
    burstReads A rs (gpioInit (sensor A) dev) = answers A rs (dev.stops + 1) := by
  have hrun : ∀ (rs : List (UInt8 × UInt16)) (n : ℕ) (m : Master Sensor), Free ⟨.idle, n⟩ m →
      (∀ r ∈ rs, odd r.1 = false ∧ 0 < r.2.toNat) → burstReads A rs m = answers A rs n := by
    intro rs
    induction rs with
    | nil => exact fun n m _ _ => rfl
    | cons r rs ih =>
      intro n m hm hr
      obtain ⟨ha, hl⟩ := hr r List.mem_cons_self
      obtain ⟨h1, h2⟩ := burstRead_eq (A := A) hm ha hl
      rw [burstReads, answers, h1, ih _ _ h2 fun r hr' => hr r (List.mem_cons_of_mem _ hr')]
      split
      · rfl
      · rfl
  have htodo : dev.phase.todo ≤ 27 := by
    cases dev.phase <;> simp only [Phase.todo] <;> omega
  have h27 := exchange_ones (A := A) 27 dev htodo
  refine hrun rs _ _ ?_ hr
  rw [gpioInit_eq (by rw [h27]; rfl), reset, h27]
  exact ⟨_, _, rfl⟩

/-- A sensor that was left in the middle of a byte. -/
theorem burst_reads_left : burstReads ⟨fun _ _ => true, fun _ j => j.toUInt8⟩ [(0x88, 4)]
    (gpioInit (sensor ⟨fun _ _ => true, fun _ j => j.toUInt8⟩) ⟨.sending 2 5, 0⟩) = [some [0, 1, 2, 3]] := by
  rw [burst_reads ⟨.sending 2 5, 0⟩ [(0x88, 4)]]
  · rfl
  · intro r hr
    rw [List.mem_singleton.mp hr]
    exact ⟨rfl, by decide⟩

end Mvh3004
end Netacademia
