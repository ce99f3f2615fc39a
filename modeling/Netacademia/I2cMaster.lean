/-
# The I2C master

`driver/i2c_master.c`, the same file in `orai_munka`, `development`, `driver_lib` and
`examples/IoT_Demo`. The pins are open-drain: each call of `i2c_master_setDC` sets the two
lines of a bus (`Lib.I2c`) at whose other end there is a device; the waits are left out.

* `one_line_at_a_time`: in a sequence of calls, with any device, no call of
  `i2c_master_setDC` changes both lines, unless `i2c_master_init` comes right after a START.
* `transfer`: between a START and a STOP the calls put on the bus the bits they are given,
  and return the bits that the device has made of them.
-/
import Netacademia.Lib.Cells
import Netacademia.Lib.I2c

namespace Netacademia
namespace I2cMaster

open Lib I2c

/-- The last levels, `m_nLastSDA` and `m_nLastSCL`, and the bus. -/
structure Master (σ : Type*) where
  lastSDA : UInt8
  lastSCL : UInt8
  bus : Bus σ

section Driver

variable {σ : Type*} (D : Device σ)

def setDC (SDA SCL : UInt8) (m : Master σ) : Master σ :=
  let SDA := SDA &&& 1
  let SCL := SCL &&& 1
  ⟨SDA, SCL,
    if SDA = 0 ∧ SCL = 0 then m.bus.drive D false false
    else if SDA = 0 ∧ SCL = 1 then m.bus.drive D false true
    else if SDA = 1 ∧ SCL = 0 then m.bus.drive D true false
    else m.bus.drive D true true⟩

def getDC (m : Master σ) : UInt8 := if m.bus.line then 1 else 0

def start (m : Master σ) : Master σ :=
  let m := setDC D 1 m.lastSCL m
  let m := setDC D 1 1 m
  setDC D 0 1 m

def stop (m : Master σ) : Master σ :=
  let m := setDC D 0 m.lastSCL m
  let m := setDC D 0 1 m
  setDC D 1 1 m

def init (m : Master σ) : Master σ :=
  let m := setDC D 1 0 m
  let m := setDC D 0 0 m
  let m := setDC D 1 0 m
  let m := (List.range 28).foldl (fun m _ => setDC D 1 1 (setDC D 1 0 m)) m
  stop D m

/-- The statics are zero, and the pins are set high without `i2c_master_setDC`. -/
def gpioInit (dev : σ) : Master σ := init D ⟨0, 0, ⟨true, true, none, D.level dev, dev, [], true⟩⟩

def setAck (level : UInt8) (m : Master σ) : Master σ :=
  let m := setDC D m.lastSDA 0 m
  let m := setDC D level 0 m
  let m := setDC D level 1 m
  let m := setDC D level 0 m
  setDC D 1 0 m

def getAck (m : Master σ) : UInt8 × Master σ :=
  let m := setDC D m.lastSDA 0 m
  let m := setDC D 1 0 m
  let m := setDC D 1 1 m
  (getDC m, setDC D 1 0 m)

/-- An iteration of `i2c_master_readByte`. -/
def readBit (r : UInt8 × Master σ) (i : ℕ) : UInt8 × Master σ :=
  let m := setDC D 1 0 r.2
  let m := setDC D 1 1 m
  let k := getDC m
  (r.1 ||| k <<< (7 - i).toUInt8, m)

def readByte (m : Master σ) : UInt8 × Master σ :=
  let m := setDC D m.lastSDA 0 m
  let r := (List.range 8).foldl (readBit D) (0, m)
  (r.1, setDC D 1 0 r.2)

/-- An iteration of `i2c_master_writeByte`. -/
def writeBit (wrdata : UInt8) (m : Master σ) (i : ℕ) : Master σ :=
  let dat := wrdata >>> i.toUInt8
  let m := setDC D dat 0 m
  let m := setDC D dat 1 m
  setDC D dat 0 m

def writeByte (wrdata : UInt8) (m : Master σ) : Master σ :=
  let m := setDC D m.lastSDA 0 m
  [7, 6, 5, 4, 3, 2, 1, 0].foldl (writeBit D wrdata) m

/-! ### One call of `i2c_master_setDC` -/

/-- The level that a byte is driven as. -/
def odd (x : UInt8) : Bool := x &&& 1 == 1

def bit (b : Bool) : UInt8 := if b then 1 else 0

/-- The master that has driven the lines of a bus. -/
def driving (s : Bus σ) : Master σ := ⟨bit s.sda, bit s.scl, s⟩

theorem odd_bit (b : Bool) : odd (bit b) = b := by cases b <;> rfl

theorem odd_zero : odd 0 = false := rfl

theorem odd_one : odd 1 = true := rfl

theorem odd_eq (x : UInt8) : odd x = decide (x.toNat % 2 = 1) := by
  have h : (x &&& 1).toNat = x.toNat % 2 := by
    rw [UInt8.toNat_and]
    exact Nat.and_one_is_mod x.toNat
  rw [odd, Bool.eq_iff_iff, beq_iff_eq, decide_eq_true_eq, ← h, ← UInt8.toNat_inj]
  rfl

theorem and_one (x : UInt8) : x &&& 1 = bit (odd x) := by
  apply UInt8.toNat_inj.mp
  rw [UInt8.toNat_and, odd_eq]
  apply (Nat.and_one_is_mod x.toNat).trans
  rcases Nat.mod_two_eq_zero_or_one x.toNat with h | h
  · rw [h]
    rfl
  · rw [h]
    rfl

theorem setDC_eq (SDA SCL : UInt8) (m : Master σ) :
    setDC D SDA SCL m = driving (m.bus.drive D (odd SDA) (odd SCL)) := by
  obtain ⟨hsda, hscl⟩ := drive_lines D (odd SDA) (odd SCL) m.bus
  rw [driving, hsda, hscl]
  simp only [setDC, and_one]
  cases odd SDA <;> cases odd SCL <;> rfl

/-! ### The calls -/

/-- A call between a START and a STOP. -/
inductive ByteCall
  | writeByte (wrdata : UInt8)
  | readByte
  | setAck (level : UInt8)
  | getAck

/-- The call, and what it returns. -/
def ByteCall.run (m : Master σ) : ByteCall → Option UInt8 × Master σ
  | writeByte wrdata => (none, I2cMaster.writeByte D wrdata m)
  | readByte => let r := I2cMaster.readByte D m; (some r.1, r.2)
  | setAck level => (none, I2cMaster.setAck D level m)
  | getAck => let r := I2cMaster.getAck D m; (some r.1, r.2)

/-- The calls after `i2c_master_gpio_init`. -/
inductive Call
  | init
  | start
  | stop
  | byte (c : ByteCall)

def Call.run (m : Master σ) : Call → Master σ
  | init => I2cMaster.init D m
  | start => I2cMaster.start D m
  | stop => I2cMaster.stop D m
  | byte c => (c.run D m).2

/-! ### One line at a time -/

/-- The statics say what the lines are, and no two lines have changed at once. -/
structure Apart (sda scl : Bool) (m : Master σ) : Prop where
  eq : m = driving m.bus
  sda : m.bus.sda = sda
  scl : m.bus.scl = scl
  apart : m.bus.apart = true

variable {sda scl : Bool} {m : Master σ}

theorem Apart.lastSDA (h : Apart sda scl m) : m.lastSDA = bit sda := by rw [h.eq, ← h.sda]; rfl

theorem Apart.lastSCL (h : Apart sda scl m) : m.lastSCL = bit scl := by rw [h.eq, ← h.scl]; rfl

theorem setDC_apart (SDA SCL : UInt8) (ha : m.bus.apart = true)
    (h : m.bus.sda = odd SDA ∨ m.bus.scl = odd SCL) : Apart (odd SDA) (odd SCL) (setDC D SDA SCL m) := by
  obtain ⟨hsda, hscl⟩ := drive_lines D (odd SDA) (odd SCL) m.bus
  rw [setDC_eq]
  refine ⟨rfl, hsda, hscl, ?_⟩
  show (m.bus.drive D (odd SDA) (odd SCL)).apart = true
  rw [drive_apart, ha, Bool.true_and, Bool.or_eq_true, beq_iff_eq, beq_iff_eq]
  exact h

theorem Apart.set_data (h : Apart sda scl m) (SDA SCL : UInt8) (hs : scl = odd SCL) :
    Apart (odd SDA) (odd SCL) (setDC D SDA SCL m) :=
  setDC_apart D SDA SCL h.apart (Or.inr (h.scl.trans hs))

theorem Apart.set_clock (h : Apart sda scl m) (SDA SCL : UInt8) (hs : sda = odd SDA) :
    Apart (odd SDA) (odd SCL) (setDC D SDA SCL m) :=
  setDC_apart D SDA SCL h.apart (Or.inl (h.sda.trans hs))

/-- The clock falls, and the data stays. -/
theorem Apart.fall (h : Apart sda scl m) : Apart sda false (setDC D m.lastSDA 0 m) := by
  have h1 := h.set_clock D m.lastSDA 0 (by rw [h.lastSDA, odd_bit])
  rw [h.lastSDA, odd_bit] at h1
  rw [h.lastSDA]
  exact h1

/-- The data changes, and the clock stays. -/
theorem Apart.data (h : Apart sda scl m) (SDA : UInt8) : Apart (odd SDA) scl (setDC D SDA m.lastSCL m) := by
  have h1 := h.set_data D SDA m.lastSCL (by rw [h.lastSCL, odd_bit])
  rw [h.lastSCL, odd_bit] at h1
  rw [h.lastSCL]
  exact h1

theorem start_apart (h : Apart sda scl m) : Apart false true (start D m) :=
  (((h.data D 1).set_clock D 1 1 rfl).set_data D 0 1 rfl)

theorem stop_apart (h : Apart sda scl m) : Apart true true (stop D m) :=
  (((h.data D 0).set_clock D 0 1 rfl).set_data D 1 1 rfl)

theorem setAck_apart (h : Apart sda scl m) (level : UInt8) : Apart true false (setAck D level m) :=
  (((((h.fall D).set_data D level 0 rfl).set_clock D level 1 rfl).set_clock D level 0 rfl).set_data D 1 0 rfl)

theorem getAck_apart (h : Apart sda scl m) : Apart true false (getAck D m).2 :=
  ((((h.fall D).set_data D 1 0 rfl).set_clock D 1 1 rfl).set_clock D 1 0 rfl)

/-- The data can be set to a one, with the clock low. -/
theorem readBit_apart (r : UInt8 × Master σ) (h : Apart sda scl r.2) (hs : sda = true ∨ scl = false) (i : ℕ) :
    Apart true true (readBit D r i).2 :=
  (setDC_apart D 1 0 h.apart (hs.imp h.sda.trans h.scl.trans)).set_clock D 1 1 rfl

theorem readByte_apart (h : Apart sda scl m) : Apart true false (readByte D m).2 := by
  have h1 := readBit_apart D (0, setDC D m.lastSDA 0 m) (h.fall D) (Or.inr rfl) 0
  have h8 : Apart true true ([1, 2, 3, 4, 5, 6, 7].foldl (readBit D) _).2 :=
    List.foldlRecOn (motive := fun r : UInt8 × Master σ => Apart true true r.2) _ _ h1
      fun r hr i _ => readBit_apart D r hr (Or.inl rfl) i
  exact h8.set_clock D 1 0 rfl

theorem writeBit_apart (wrdata : UInt8) (h : Apart sda false m) (i : ℕ) :
    Apart (odd (wrdata >>> i.toUInt8)) false (writeBit D wrdata m i) :=
  ((h.set_data D (wrdata >>> i.toUInt8) 0 rfl).set_clock D (wrdata >>> i.toUInt8) 1 rfl).set_clock D (wrdata >>> i.toUInt8) 0 rfl

theorem writeByte_apart (wrdata : UInt8) (h : Apart sda scl m) :
    ∃ sda', Apart sda' false (writeByte D wrdata m) :=
  List.foldlRecOn (motive := fun m => ∃ sda', Apart sda' false m) _ _ ⟨sda, h.fall D⟩
    fun _ ⟨_, hm⟩ i _ => ⟨_, writeBit_apart D wrdata hm i⟩

theorem init_apart (ha : m.bus.apart = true) (hs : m.bus.sda = true ∨ m.bus.scl = false) :
    Apart true true (init D m) := by
  have h1 := setDC_apart D 1 0 ha hs
  have h2 := (h1.set_data D 0 0 rfl).set_data D 1 0 rfl
  obtain ⟨scl, h3⟩ : ∃ scl, Apart true scl ((List.range 28).foldl (fun m _ => setDC D 1 1 (setDC D 1 0 m)) _) :=
    List.foldlRecOn (motive := fun m => ∃ scl, Apart true scl m) _ _ ⟨false, h2⟩
      fun _ ⟨_, hm⟩ _ _ => ⟨true, (hm.set_clock D 1 0 rfl).set_clock D 1 1 rfl⟩
  exact stop_apart D h3

/-- The lines as a call leaves them: a START alone leaves the data low under a high clock. -/
def Call.Leaves (c : Call) (m : Master σ) : Prop :=
  ∃ sda scl, Apart sda scl m ∧ (sda = false ∧ scl = true ↔ c = .start)

theorem call_leaves (c : Call) (h : Apart sda scl m) (hc : c = .init → ¬ (sda = false ∧ scl = true)) :
    c.Leaves (c.run D m) := by
  cases c with
  | init =>
    have hfree : m.bus.sda = true ∨ m.bus.scl = false := by
      rw [h.sda, h.scl]
      cases sda with
      | true => exact Or.inl rfl
      | false => exact Or.inr (Bool.eq_false_iff.mpr fun hs => hc rfl ⟨rfl, hs⟩)
    exact ⟨_, _, init_apart D h.apart hfree, by simp⟩
  | start => exact ⟨_, _, start_apart D h, by simp⟩
  | stop => exact ⟨_, _, stop_apart D h, by simp⟩
  | byte c =>
    cases c with
    | writeByte wrdata =>
      obtain ⟨sda', h'⟩ := writeByte_apart D wrdata h
      exact ⟨sda', false, h', by simp⟩
    | readByte => exact ⟨_, _, readByte_apart D h, by simp⟩
    | setAck level => exact ⟨_, _, setAck_apart D h level, by simp⟩
    | getAck => exact ⟨_, _, getAck_apart D h, by simp⟩

/-! ### Two lines at once -/

/-- Two lines have changed at once. -/
def Crossed (m : Master σ) : Prop := m.bus.apart = false

theorem setDC_crossed (SDA SCL : UInt8) (h : Crossed m) : Crossed (setDC D SDA SCL m) := by
  rw [setDC_eq]
  show (m.bus.drive D (odd SDA) (odd SCL)).apart = false
  rw [drive_apart, show m.bus.apart = false from h, Bool.false_and]

theorem stop_crossed (h : Crossed m) : Crossed (stop D m) :=
  setDC_crossed D _ _ (setDC_crossed D _ _ (setDC_crossed D _ _ h))

/-- What the first call of `i2c_master_setDC` crosses stays crossed. -/
theorem init_crossed (h : Crossed (setDC D 1 0 m)) : Crossed (init D m) :=
  stop_crossed D (List.foldlRecOn (motive := Crossed) _ _ (setDC_crossed D 1 0 (setDC_crossed D 0 0 h))
    fun _ hm _ _ => setDC_crossed D 1 1 (setDC_crossed D 1 0 hm))

theorem call_crossed (c : Call) (h : Crossed m) : Crossed (c.run D m) := by
  cases c with
  | init => exact init_crossed D (setDC_crossed D 1 0 h)
  | start => exact setDC_crossed D _ _ (setDC_crossed D _ _ (setDC_crossed D _ _ h))
  | stop => exact stop_crossed D h
  | byte c =>
    have hfall := setDC_crossed D m.lastSDA 0 h
    cases c with
    | writeByte wrdata =>
      exact List.foldlRecOn (motive := Crossed) _ _ hfall fun _ hm i _ =>
        setDC_crossed D _ 0 (setDC_crossed D _ 1 (setDC_crossed D (wrdata >>> i.toUInt8) 0 hm))
    | readByte =>
      refine setDC_crossed D 1 0 ?_
      exact List.foldlRecOn (motive := fun r : UInt8 × Master σ => Crossed r.2) _ _ hfall fun r hr _ _ =>
        setDC_crossed D 1 1 (setDC_crossed D 1 0 hr)
    | setAck level =>
      exact setDC_crossed D 1 0 (setDC_crossed D level 0 (setDC_crossed D level 1 (setDC_crossed D level 0 hfall)))
    | getAck => exact setDC_crossed D 1 0 (setDC_crossed D 1 1 (setDC_crossed D 1 0 hfall))

/-- After a START the initialization raises the data and drops the clock at once. -/
theorem init_after_start {c : Call} (hc : c = .start) (h : c.Leaves m) : Crossed (init D m) := by
  obtain ⟨sda, scl, ha, hl⟩ := h
  obtain ⟨rfl, rfl⟩ := hl.mpr hc
  refine init_crossed D ?_
  rw [setDC_eq]
  show (m.bus.drive D (odd 1) (odd 0)).apart = false
  rw [drive_apart, ha.sda, ha.scl]
  exact Bool.and_false _

/-- The second call does not initialize the bus after a START. -/
def Follows (c d : Call) : Prop := c = .start → d ≠ .init

theorem calls_apart (c : Call) (cs : List Call) (h : c.Leaves m) :
    (cs.foldl (fun m c => c.run D m) m).bus.apart = true ↔ (c :: cs).IsChain Follows := by
  induction cs generalizing c m with
  | nil =>
    obtain ⟨sda, scl, ha, -⟩ := h
    exact iff_of_true ha.apart (.singleton c)
  | cons d cs ih =>
    rw [List.foldl_cons, List.isChain_cons_cons]
    by_cases hd : Follows c d
    · obtain ⟨sda, scl, ha, hl⟩ := h
      rw [ih d (call_leaves D d ha fun he hs => hd (hl.mp hs) he), and_iff_right hd]
    · obtain ⟨hc, he⟩ := Classical.not_imp.mp hd
      obtain rfl := not_not.mp he
      have hcross : Crossed (cs.foldl (fun m c => c.run D m) (init D m)) :=
        List.foldlRecOn (motive := Crossed) _ _ (init_after_start D hc h) fun _ hm d _ => call_crossed D d hm
      exact iff_of_false (fun ht => Bool.false_ne_true (hcross.symm.trans ht)) fun hch => hd hch.1

/-- No call of `i2c_master_setDC` sets both lines at once, in whatever order the calls
come, if and only if no `i2c_master_init` comes right after a START. -/
theorem one_line_at_a_time (dev : σ) (cs : List Call) :
    (cs.foldl (fun m c => c.run D m) (gpioInit D dev)).bus.apart = true ↔ cs.IsChain Follows := by
  have hinit : Call.init.Leaves (gpioInit D dev) := ⟨_, _, init_apart D rfl (Or.inl rfl), by simp⟩
  have hfirst : (Call.init :: cs).IsChain Follows ↔ cs.IsChain Follows := by
    cases cs with
    | nil => exact iff_of_true (.singleton _) .nil
    | cons c cs =>
      rw [List.isChain_cons_cons]
      exact and_iff_right fun hc => Call.noConfusion hc
  rw [calls_apart D _ cs hinit, hfirst]

/-! ### What the calls put on the bus -/

/-- The levels of a call, one for each bit. -/
def ByteCall.bits : ByteCall → List Bool
  | writeByte wrdata => (List.range 8).map (bitOf wrdata)
  | readByte => List.replicate 8 true
  | setAck level => [odd level]
  | getAck => [true]

/-- What a call returns, of the bits on the bus. -/
def ByteCall.value : ByteCall → List Bool → Option UInt8
  | readByte, bs => some (byteOf fun k => bs.getD k false)
  | getAck, bs => some (bit (bs.headD false))
  | writeByte _, _ => none
  | setAck _, _ => none

/-- Ready for a byte: the clock is low, or high since a START. -/
inductive Ready (q : σ) (h : List Symbol) (a : Bool) : Bus σ → Prop
  | low (d : Bool) : Ready q h a (I2c.low D d q h a)
  | marked : Ready q h a (I2c.marked false q h a)

variable {D} {q : σ} {h : List Symbol} {a : Bool}

theorem Ready.settle {s : Bus σ} (hs : Ready D q h a s) :
    ∃ d, setDC D (driving s).lastSDA 0 (driving s) = driving (I2c.low D d q h a) := by
  cases hs with
  | low d =>
    refine ⟨d, ?_⟩
    rw [setDC_eq]
    show driving ((I2c.low D d q h a).drive D (odd (bit d)) false) = _
    rw [drive_low, odd_bit]
  | marked =>
    refine ⟨false, ?_⟩
    rw [setDC_eq]
    show driving ((I2c.marked false q h a).drive D (odd (bit false)) false) = _
    rw [odd_bit, drive_marked_down]

theorem setDC_driving (SDA SCL : UInt8) (s : Bus σ) :
    setDC D SDA SCL (driving s) = driving (s.drive D (odd SDA) (odd SCL)) := setDC_eq D SDA SCL (driving s)

theorem writeBits (wrdata : UInt8) (is : List ℕ) (s : Bus σ) :
    is.foldl (writeBit D wrdata) (driving s) =
      driving ((is.map fun i => odd (wrdata >>> i.toUInt8)).foldl (fun s d => s.pulse D d) s) := by
  induction is generalizing s with
  | nil => rfl
  | cons i is ih =>
    rw [List.foldl_cons, List.map_cons, List.foldl_cons, ← ih, writeBit]
    simp only [setDC_driving]
    rfl

theorem odd_shift (w : UInt8) {k : ℕ} (hk : k < 8) : odd (w >>> (7 - k).toUInt8) = bitOf w k := by
  have hs : ∀ k < 8, (7 - k).toUInt8.toNat % 8 = 7 - k := by decide
  rw [odd_eq, UInt8.toNat_shiftRight, hs k hk, ← Nat.testBit_zero, Nat.testBit_shiftRight]
  rfl

theorem or_bit (r : UInt8) (b : Bool) (n : UInt8) : r ||| bit b <<< n = if b then r ||| 1 <<< n else r := by
  cases b with
  | false => rw [if_neg Bool.false_ne_true]; simp [bit]
  | true => rfl

/-- The bits are set in the byte from the top. -/
theorem foldl_or_bit {bs : List Bool} (hb : bs.length = 8) :
    ((List.range 8).zip bs).foldl (fun r p => r ||| bit p.2 <<< (7 - p.1).toUInt8) 0 =
      byteOf fun k => bs.getD k false := by
  have hzip : (List.range 8).zip bs = (List.range 8).map fun k => (k, bs.getD k false) := by
    apply List.ext_getElem
    · simp [hb]
    · intro k hk hk'
      have hk8 : k < bs.length := by simp [hb] at hk; omega
      simp [List.getElem?_eq_getElem hk8]
  rw [hzip, List.foldl_map, byteOf]
  simp only [or_bit]

theorem readBits (is : List ℕ) (r : UInt8) {s : Bus σ} (hs : s.drive D true false = I2c.low D true q h a) :
    ∃ s', is.foldl (readBit D) (r, driving s) =
        ((is.zip (exchange D q (List.replicate is.length true)).1).foldl
          (fun r p => r ||| bit p.2 <<< (7 - p.1).toUInt8) r, driving s') ∧
      s'.drive D true false = I2c.low D true (exchange D q (List.replicate is.length true)).2
        (h ++ (exchange D q (List.replicate is.length true)).1.map .bit) a := by
  induction is generalizing r s q h with
  | nil => exact ⟨s, rfl, by rw [hs]; simp [exchange]⟩
  | cons i is ih =>
    have hbit : readBit D (r, driving s) i =
        (r ||| bit (true && D.level q) <<< (7 - i).toUInt8, driving (up D true q h a)) := by
      unfold readBit
      simp only [setDC_driving]
      rw [odd_one, odd_zero, hs, drive_up]
      rfl
    obtain ⟨s', h1, h2⟩ := ih (r ||| bit (true && D.level q) <<< (7 - i).toUInt8) (drive_down true)
    refine ⟨s', ?_, ?_⟩
    · rw [List.foldl_cons, hbit, h1]
      rfl
    · rw [h2, List.length_cons, List.replicate_succ, exchange]
      simp only [List.map_cons, List.append_assoc, List.singleton_append]

theorem levels_writeByte (wrdata : UInt8) :
    [7, 6, 5, 4, 3, 2, 1, 0].map (fun i : ℕ => odd (wrdata >>> i.toUInt8)) = (ByteCall.writeByte wrdata).bits := by
  have hrev : [7, 6, 5, 4, 3, 2, 1, 0] = (List.range 8).map (7 - ·) := rfl
  rw [hrev, List.map_map]
  exact List.map_congr_left fun k hk => odd_shift wrdata (List.mem_range.mp hk)

/-- A byte call from the states between two calls. -/
theorem call_eq {s : Bus σ} (hs : Ready D q h a s) (c : ByteCall) :
    ∃ d, c.run D (driving s) = (c.value (exchange D q c.bits).1,
      driving (I2c.low D d (exchange D q c.bits).2 (h ++ (exchange D q c.bits).1.map .bit) a)) := by
  obtain ⟨d, hd⟩ := hs.settle
  cases c with
  | writeByte wrdata =>
    obtain ⟨d', hd'⟩ := pulses_low (D := D) (q := q) (h := h) (a := a) (ByteCall.writeByte wrdata).bits d
    refine ⟨d', ?_⟩
    rw [ByteCall.run, writeByte, hd, writeBits, levels_writeByte, hd']
    rfl
  | readByte =>
    obtain ⟨s', h1, h2⟩ := readBits (D := D) (q := q) (h := h) (a := a) (List.range 8) 0 (drive_low d true)
    refine ⟨true, ?_⟩
    have h8 : (exchange D q (List.replicate 8 true)).1.length = 8 := by
      rw [length_exchange, List.length_replicate]
    rw [List.length_range] at h1 h2
    rw [foldl_or_bit h8] at h1
    rw [ByteCall.run]
    simp only [readByte, hd, h1, setDC_driving]
    rw [odd_one, odd_zero, h2]
    rfl
  | setAck level =>
    refine ⟨true, ?_⟩
    rw [ByteCall.run, setAck, hd]
    simp only [setDC_driving]
    rw [odd_zero, odd_one, drive_low, drive_up, drive_down, drive_low]
    rfl
  | getAck =>
    refine ⟨true, ?_⟩
    rw [ByteCall.run]
    simp only [getAck, hd, setDC_driving]
    rw [odd_zero, odd_one, drive_low, drive_up, drive_down]
    rfl

/-- A START on a free bus. -/
theorem start_eq : start D (driving (marked true q h a)) =
    driving (marked false (D.next q .start) (h ++ [.start]) a) := by
  have h1 : setDC D 1 (driving (marked true q h a)).lastSCL (driving (marked true q h a)) =
      driving (marked true q h a) := by
    rw [setDC_driving]
    show driving ((marked true q h a).drive D (odd 1) (odd (bit true))) = _
    rw [odd_bit, odd_one, drive_marked]
  rw [start, h1]
  simp only [setDC_driving]
  rw [odd_zero, odd_one, drive_marked, drive_restart]

/-- A STOP, with the data line left to the master. -/
theorem stop_eq {s : Bus σ} (hs : Ready D q h a s) (hq : D.level q = true) :
    stop D (driving s) = driving (marked true (D.next q .stop) (h ++ [.stop]) a) := by
  unfold stop
  cases hs with
  | low d =>
    have h1 : setDC D 0 (driving (I2c.low D d q h a)).lastSCL (driving (I2c.low D d q h a)) =
        driving (I2c.low D false q h a) := by
      rw [setDC_driving]
      show driving ((I2c.low D d q h a).drive D (odd 0) (odd (bit false))) = _
      rw [odd_bit, odd_zero, drive_low]
    rw [h1]
    simp only [setDC_driving]
    rw [odd_zero, odd_one, drive_up, drive_stop hq]
  | marked =>
    have h1 : setDC D 0 (driving (marked false q h a)).lastSCL (driving (marked false q h a)) =
        driving (marked false q h a) := by
      rw [setDC_driving]
      show driving ((marked false q h a).drive D (odd 0) (odd (bit true))) = _
      rw [odd_bit, odd_zero, drive_marked]
    rw [h1]
    simp only [setDC_driving]
    rw [odd_zero, odd_one, drive_marked, drive_release]

/-- The STOP of a clock that is high: the data falls under it first. -/
theorem stop_up (hq : D.level q = true) : stop D (driving (up D true q h a)) =
    driving (marked true (D.next (D.next q .start) .stop) (h ++ [.start] ++ [.stop]) a) := by
  have h1 : setDC D 0 (driving (up D true q h a)).lastSCL (driving (up D true q h a)) =
      driving (marked false (D.next q .start) (h ++ [.start]) a) := by
    rw [setDC_driving]
    show driving ((up D true q h a).drive D (odd 0) (odd (bit true))) = _
    rw [odd_bit, odd_zero, drive_start hq]
  rw [stop, h1]
  simp only [setDC_driving]
  rw [odd_zero, odd_one, drive_marked, drive_release]

/-- A clock that falls and rises with the data high; each clock after it is a bit. -/
theorem clocks (is : List ℕ) {s : Bus σ} (hs : s.drive D true false = I2c.low D true q h a) :
    is.foldl (fun m _ => setDC D 1 1 (setDC D 1 0 m)) (setDC D 1 1 (setDC D 1 0 (driving s))) =
      driving (up D true (exchange D q (List.replicate is.length true)).2
        (h ++ (exchange D q (List.replicate is.length true)).1.map .bit) a) := by
  have hup : setDC D 1 1 (setDC D 1 0 (driving s)) = driving (up D true q h a) := by
    rw [setDC_driving, setDC_driving, odd_zero, odd_one, hs, drive_up]
  induction is generalizing q h s with
  | nil => rw [List.foldl_nil, hup]; simp [exchange]
  | cons i is ih =>
    rw [List.foldl_cons, hup]
    have hdown := drive_down (D := D) (q := q) (h := h) (a := a) true
    rw [ih hdown (by rw [setDC_driving, setDC_driving, odd_zero, odd_one, hdown, drive_up])]
    rw [List.length_cons, List.replicate_succ, exchange]
    simp only [List.map_cons, List.append_assoc, List.singleton_append]

variable (D) in
/-- What `i2c_master_gpio_init` comes to: 27 whole bits, a START and a STOP. -/
def reset (q : σ) : List Symbol × σ :=
  let r := exchange D q (List.replicate 27 true)
  (r.1.map .bit ++ [.start, .stop], D.next (D.next r.2 .start) .stop)

theorem gpioInit_eq {dev : σ} (hq : D.level (exchange D dev (List.replicate 27 true)).2 = true) :
    gpioInit D dev = driving (marked true (reset D dev).2 (reset D dev).1 true) := by
  have h0 : setDC D 1 0 ⟨0, 0, ⟨true, true, none, D.level dev, dev, [], true⟩⟩ =
      driving (I2c.low D true dev [] true) := by
    rw [setDC_eq, odd_zero, odd_one]
    simp [I2c.low, Bus.drive, Bus.complete]
  have h28 := clocks (D := D) (q := dev) (h := []) (a := true) (List.range' 1 27) (drive_low true true)
  rw [List.length_range', List.nil_append] at h28
  have hloop : (List.range 28).foldl (fun m _ => setDC D 1 1 (setDC D 1 0 m)) (driving (I2c.low D true dev [] true)) =
      driving (up D true (exchange D dev (List.replicate 27 true)).2
        ((exchange D dev (List.replicate 27 true)).1.map .bit) true) := by
    rw [show List.range 28 = 0 :: List.range' 1 27 from rfl, List.foldl_cons, h28]
  have hinit : gpioInit D dev = stop D ((List.range 28).foldl (fun m _ => setDC D 1 1 (setDC D 1 0 m))
      (driving (I2c.low D true dev [] true))) := by
    rw [gpioInit, init, h0]
    rw [setDC_driving 0 0, odd_zero, drive_low, setDC_driving 1 0, odd_zero, odd_one, drive_low]
  rw [hinit, hloop, stop_up hq, List.append_assoc]
  rfl

/-! ### Messages -/

variable (D) in
def calls : List ByteCall → Master σ → List (Option UInt8) × Master σ
  | [], m => ([], m)
  | c :: cs, m =>
    let r := c.run D m
    let rs := calls cs r.2
    (r.1 :: rs.1, rs.2)

variable (D) in
/-- The messages after one another, each between a START and a STOP. -/
def messages : List (List ByteCall) → Master σ → List (List (Option UInt8)) × Master σ
  | [], m => ([], m)
  | cs :: css, m =>
    let r := calls D cs (start D m)
    let rs := messages css (stop D r.2)
    (r.1 :: rs.1, rs.2)

/-- What the calls of a message return, of its bits on the bus. -/
def replies : List ByteCall → List Bool → List (Option UInt8)
  | [], _ => []
  | c :: cs, bs => c.value (bs.take c.bits.length) :: replies cs (bs.drop c.bits.length)

variable (D) in
/-- What the messages return, what is on the bus and how they leave the device. -/
def session : σ → List (List ByteCall) → List (List (Option UInt8)) × List Symbol × σ
  | q, [] => ([], [], q)
  | q, cs :: css =>
    let r := exchange D (D.next q .start) (cs.flatMap ByteCall.bits)
    let rs := session (D.next r.2 .stop) css
    (replies cs r.1 :: rs.1, .start :: r.1.map .bit ++ .stop :: rs.2.1, rs.2.2)

variable (D) in
/-- The device leaves the data line to the master at the end of each message. -/
def Leaves : σ → List (List ByteCall) → Prop
  | _, [] => True
  | q, cs :: css =>
    let r := exchange D (D.next q .start) (cs.flatMap ByteCall.bits)
    D.level r.2 = true ∧ Leaves (D.next r.2 .stop) css

theorem calls_eq (cs : List ByteCall) {s : Bus σ} (hs : Ready D q h a s) :
    ∃ s', calls D cs (driving s) = (replies cs (exchange D q (cs.flatMap ByteCall.bits)).1, driving s') ∧
      Ready D (exchange D q (cs.flatMap ByteCall.bits)).2
        (h ++ (exchange D q (cs.flatMap ByteCall.bits)).1.map .bit) a s' := by
  induction cs generalizing q h s with
  | nil => exact ⟨s, rfl, by simpa [exchange] using hs⟩
  | cons c cs ih =>
    obtain ⟨d, hd⟩ := call_eq hs c
    obtain ⟨s', h1, h2⟩ := ih (Ready.low (D := D) (q := (exchange D q c.bits).2)
      (h := h ++ (exchange D q c.bits).1.map .bit) (a := a) d)
    have hlen := length_exchange (D := D) q c.bits
    refine ⟨s', ?_, ?_⟩
    · rw [calls, hd]
      simp only [h1, List.flatMap_cons, exchange_append, replies]
      rw [← hlen, List.take_left, List.drop_left]
    · rw [List.flatMap_cons, exchange_append, List.map_append, ← List.append_assoc]
      exact h2

theorem messages_eq (css : List (List ByteCall)) (hl : Leaves D q css) :
    messages D css (driving (marked true q h a)) =
      ((session D q css).1, driving (marked true (session D q css).2.2 (h ++ (session D q css).2.1) a)) := by
  induction css generalizing q h with
  | nil => rw [messages, session, List.append_nil]
  | cons cs css ih =>
    obtain ⟨hq, hl⟩ := hl
    obtain ⟨s', h1, h2⟩ := calls_eq cs (Ready.marked (D := D) (q := D.next q .start) (h := h ++ [.start]) (a := a))
    rw [messages, start_eq, h1, stop_eq h2 hq]
    simp only [ih hl, session]
    simp

/-- The bus after any number of messages from the reset on, and what they return. -/
theorem transfer (dev : σ) (css : List (List ByteCall))
    (hq : D.level (exchange D dev (List.replicate 27 true)).2 = true) (hl : Leaves D (reset D dev).2 css) :
    messages D css (gpioInit D dev) = ((session D (reset D dev).2 css).1,
      driving (marked true (session D (reset D dev).2 css).2.2
        ((reset D dev).1 ++ (session D (reset D dev).2 css).2.1) true)) := by
  rw [gpioInit_eq hq]
  exact messages_eq css hl

/-- A device that counts the bits since a START: it acknowledges the first byte, and
pulls the data low in the second one. -/
def answering : Device ℕ where
  next
    | n, .bit _ => n + 1
    | _, .start | _, .stop => 0
  level n := n != 8 && !(10 ≤ n && n ≤ 13)

/-- An address to write to, and one to read a byte from. -/
theorem transfer_answering :
    (messages answering [[.writeByte 0x88, .getAck], [.writeByte 0x89, .getAck, .readByte, .setAck 1]]
      (gpioInit answering 18)).1 = [[none, some 0], [none, some 0, some 0x87, none]] := by
  rw [transfer (D := answering) 18 [[.writeByte 0x88, .getAck], [.writeByte 0x89, .getAck, .readByte, .setAck 1]]
    rfl ⟨rfl, rfl, trivial⟩]
  rfl

/-! ### Between the calls -/

variable (D) in
/-- Between two calls of a message, with the device at `q`. -/
def At (q : σ) (m : Master σ) : Prop := ∃ s h a, m = driving s ∧ Ready D q h a s

/-- The bus is free, with the device at `q`. -/
def Free (q : σ) (m : Master σ) : Prop := ∃ h a, m = driving (marked true q h a)

theorem At.call {m : Master σ} (hm : At D q m) (c : ByteCall) :
    (c.run D m).1 = c.value (exchange D q c.bits).1 ∧ At D (exchange D q c.bits).2 (c.run D m).2 := by
  obtain ⟨s, h, a, rfl, hs⟩ := hm
  obtain ⟨d, hd⟩ := call_eq hs c
  rw [hd]
  exact ⟨rfl, _, _, _, rfl, Ready.low d⟩

theorem Free.start {m : Master σ} (hm : Free q m) : At D (D.next q .start) (start D m) := by
  obtain ⟨h, a, rfl⟩ := hm
  rw [start_eq]
  exact ⟨_, _, _, rfl, Ready.marked⟩

theorem At.stop {m : Master σ} (hm : At D q m) (hq : D.level q = true) : Free (D.next q .stop) (stop D m) := by
  obtain ⟨s, h, a, rfl, hs⟩ := hm
  rw [stop_eq hs hq]
  exact ⟨_, _, rfl⟩

end Driver

end I2cMaster
end Netacademia
