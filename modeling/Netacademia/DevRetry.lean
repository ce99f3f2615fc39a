/-
# The measurements of the development firmware

mainTask of `development/user` with the drivers of `UniSensor`. `GpioUniCbk` does not call
`DhtGpioCbk`, so a measurement of the DHT22 ends in a time-out, whose event makes mainTask
start the next one.

* `never_measures`: no run reads the sensor; a measurement that was started has its timer
  armed, and ends in `ERR` with the eleventh tick.
* `retries_iff`: the measurements go on as long as no time-out finds the queue of mainTask
  filled with results of the HC-SR04.
-/
import Netacademia.UniSensor

namespace Netacademia
namespace DevRetry

open Lib DevDht UniSensor

/-- Nothing was read of the sensor: the driver is not in a capture, nor was it ever. -/
structure Unread (s : State) : Prop where
  state : s.driver.dhtHandle.state = .idle ∨ s.driver.dhtHandle.state = .prep ∨ s.driver.dhtHandle.state = .err
  values : s.driver.dhtHandle.dhtTemp = 0 ∧ s.driver.dhtHandle.dhtHum = 0
  capture : s.driver.dhtResultIdx = 0 ∧ s.driver.dhtResult = Vector.replicate 42 0

/-- The ticks since the last start, which mainTask makes on an error. -/
def ticks (n : ℕ) (s : State) : Event → ℕ
  | .dhtTestSeq => 0
  | .tick _ => n + 1
  | .dispatch =>
    if s.driver.mainTaskQ.head? = some DHT_DRIVER_SOURCE ∧ s.driver.dhtHandle.state = .err then 0 else n
  | .hcsr04Start | .gpio _ _ _ => n

/-- The firmware with the ticks since the last start. -/
def timed : Machine (State × ℕ) Event := machine.history 0 ticks

/-- A measurement under way has its timer armed and at most ten ticks behind it; one that
is over has timed out, with its eleventh tick; and there is no tick before the first one. -/
structure Timed (s : State × ℕ) : Prop where
  armed : s.1.driver.dhtTimer = true ↔ s.1.driver.dhtHandle.state = .prep
  counter : s.1.dhtTimeout.toNat = s.2
  before : s.1.driver.dhtHandle.state = .idle → s.2 = 0
  running : s.1.driver.dhtHandle.state = .prep → s.2 ≤ 10
  ended : s.1.driver.dhtHandle.state = .err → s.2 = 11

/-- The time-out has ended a measurement, and nothing will start the next one. -/
def Lost (s : State) : Prop :=
  s.driver.dhtHandle.state = .err ∧ s.driver.dhtTimer = false ∧ DHT_DRIVER_SOURCE ∉ s.driver.mainTaskQ

/-- A time-out finds the queue not filled with results of the HC-SR04. -/
def Heard (s : State) : Event → Prop
  | .tick _ => DHT_TIMEOUT < s.dhtTimeout + 1 →
      s.driver.mainTaskQ ≠ List.replicate MAIN_TASK_Q_SIZE HCSR04_DRIVER_SOURCE
  | _ => True

/-! ### The steps -/

/-- What a step can do. -/
theorem step_cases {s s' : State} {e : Event} (h : machine.step s e = some s') :
    (e = .dhtTestSeq ∧ s' = dhtTestSeq s) ∨ (e = .hcsr04Start ∧ s' = ultrasensorInit s) ∨
    (∃ now, e = .tick now ∧ s.driver.dhtTimer = true ∧ s' = dhtTimerCbk now s) ∨
    (∃ gs now now', e = .gpio gs now now' ∧ s' = (gpioUniCbk gs now s).1) ∨
    ∃ sig q, e = .dispatch ∧ s.driver.mainTaskQ = sig :: q ∧
      s' = mainTask { s with driver := { s.driver with mainTaskQ := q } } sig := by
  cases e with
  | dhtTestSeq => exact .inl ⟨rfl, (Option.some.inj h).symm⟩
  | hcsr04Start => exact .inr (.inl ⟨rfl, (Option.some.inj h).symm⟩)
  | tick now =>
    obtain ⟨harmed, hs⟩ := Option.ite_none_right_eq_some.mp h
    exact .inr (.inr (.inl ⟨now, rfl, harmed, (Option.some.inj hs).symm⟩))
  | gpio gs now now' =>
    obtain ⟨-, hs⟩ := Option.ite_none_right_eq_some.mp h
    exact .inr (.inr (.inr (.inl ⟨gs, now, now', rfl, (Option.some.inj hs).symm⟩)))
  | dispatch =>
    rcases hq : s.driver.mainTaskQ with _ | ⟨sig, q⟩
    · simp only [machine, step, hq] at h
      cases h
    · simp only [machine, step, hq, Option.some.injEq] at h
      exact .inr (.inr (.inr (.inr ⟨sig, q, rfl, rfl, h.symm⟩)))

/-- What the HC-SR04 driver leaves of the rest: it can only post its result. -/
structure Keeps (s s' : State) : Prop where
  dhtHandle : s'.driver.dhtHandle = s.driver.dhtHandle
  capture : s'.driver.dhtResultIdx = s.driver.dhtResultIdx ∧ s'.driver.dhtResult = s.driver.dhtResult
  timer : s'.driver.dhtTimer = s.driver.dhtTimer ∧ s'.dhtTimeout = s.dhtTimeout
  queue : s'.driver.mainTaskQ = s.driver.mainTaskQ ∨
    s.driver.mainTaskQ.length < MAIN_TASK_Q_SIZE ∧
      s'.driver.mainTaskQ = s.driver.mainTaskQ ++ [HCSR04_DRIVER_SOURCE]

theorem keeps_ultrasensorInit (s : State) : Keeps s (ultrasensorInit s) :=
  ⟨rfl, ⟨rfl, rfl⟩, ⟨rfl, rfl⟩, .inl rfl⟩

theorem keeps_gpioUniCbk (gs now : UInt32) (s : State) : Keeps s (gpioUniCbk gs now s).1 := by
  unfold gpioUniCbk hcsr04GpioIntCbk
  split
  · split
    · exact ⟨rfl, ⟨rfl, rfl⟩, ⟨rfl, rfl⟩, .inl rfl⟩
    · split
      · unfold postHcsr04
        split
        · exact ⟨rfl, ⟨rfl, rfl⟩, ⟨rfl, rfl⟩, .inr ⟨‹_›, rfl⟩⟩
        · exact ⟨rfl, ⟨rfl, rfl⟩, ⟨rfl, rfl⟩, .inl rfl⟩
      · exact ⟨rfl, ⟨rfl, rfl⟩, ⟨rfl, rfl⟩, .inl rfl⟩
  · exact ⟨rfl, ⟨rfl, rfl⟩, ⟨rfl, rfl⟩, .inl rfl⟩

/-- `DhtTimeout++` -/
def counted (s : State) : State := { s with dhtTimeout := s.dhtTimeout + 1 }

/-- A tick before the time-out, and the time-out. -/
theorem dhtTimerCbk_eq (now : UInt32) (s : State) :
    (¬ DHT_TIMEOUT < s.dhtTimeout + 1 ∧
      dhtTimerCbk now s = { counted s with driver := dhtGpioCbkSetup now s.driver }) ∨
    DHT_TIMEOUT < s.dhtTimeout + 1 ∧ dhtTimerCbk now s =
      { counted s with driver := dhtGpioCbkSetup now ({ s.driver.setState .err with dhtTimer := false }).post } := by
  by_cases h : DHT_TIMEOUT < s.dhtTimeout + 1
  · exact .inr ⟨h, by simp only [dhtTimerCbk, if_pos h, counted]⟩
  · exact .inl ⟨h, by simp only [dhtTimerCbk, if_neg h, counted]⟩

/-- mainTask starts a measurement, or only takes the event: a reading that is complete
there is not. -/
theorem mainTask_cases {s : State} (h : Unread s) (sig : UInt32) :
    (sig = DHT_DRIVER_SOURCE ∧ s.driver.dhtHandle.state = .err ∧ mainTask s sig = dhtTestSeq s) ∨
      (sig = DHT_DRIVER_SOURCE → s.driver.dhtHandle.state ≠ .err) ∧ mainTask s sig = s := by
  have hcompl : s.driver.dhtHandle.state ≠ .compl := by
    rcases h.state with hst | hst | hst <;> rw [hst] <;> decide
  unfold mainTask
  by_cases hsig : sig = DHT_DRIVER_SOURCE
  · rw [if_pos hsig, if_neg hcompl]
    by_cases herr : s.driver.dhtHandle.state = .err
    · exact .inl ⟨hsig, herr, if_pos herr⟩
    · exact .inr ⟨fun _ => herr, if_neg herr⟩
  · exact .inr ⟨fun hs => absurd hs hsig, if_neg hsig⟩

/-! ### Nothing is read -/

theorem unread_init : Unread machine.init where
  state := .inl rfl
  values := ⟨rfl, rfl⟩
  capture := ⟨rfl, rfl⟩

theorem unread_dhtTestSeq {s : State} (h : Unread s) : Unread (dhtTestSeq s) where
  state := .inr (.inl rfl)
  values := h.values
  capture := h.capture

theorem Unread.keeps {s s' : State} (h : Unread s) (hk : Keeps s s') : Unread s' where
  state := by rw [hk.dhtHandle]; exact h.state
  values := by rw [hk.dhtHandle]; exact h.values
  capture := by rw [hk.capture.1, hk.capture.2]; exact h.capture

/-- The handler and the timer after a time-out. -/
theorem timeout_dhtHandle (d : Driver) :
    (({ d.setState .err with dhtTimer := false } : Driver).post).dhtHandle = { d.dhtHandle with state := .err } := by
  simp [Driver.setState]

theorem timeout_dhtTimer (d : Driver) : (({ d.setState .err with dhtTimer := false } : Driver).post).dhtTimer = false := by
  unfold Driver.post
  split <;> rfl

theorem unread_dhtTimerCbk (now : UInt32) {s : State} (h : Unread s) : Unread (dhtTimerCbk now s) := by
  rcases dhtTimerCbk_eq now s with ⟨-, he⟩ | ⟨-, he⟩
  · rw [he]
    exact ⟨h.state, h.values, rfl, rfl⟩
  · rw [he]
    have hhandle := timeout_dhtHandle s.driver
    exact
      { state := .inr (.inr (congrArg DhtHandler.state hhandle))
        values := ⟨(congrArg DhtHandler.dhtTemp hhandle).trans h.values.1,
          (congrArg DhtHandler.dhtHum hhandle).trans h.values.2⟩
        capture := ⟨rfl, rfl⟩ }

theorem unread_step (s : State) (e : Event) (s' : State) (h : Unread s) (hs : machine.step s e = some s') :
    Unread s' := by
  rcases step_cases hs with ⟨-, rfl⟩ | ⟨-, rfl⟩ | ⟨now, -, -, rfl⟩ | ⟨gs, now, now', -, rfl⟩ |
    ⟨sig, q, -, -, rfl⟩
  · exact unread_dhtTestSeq h
  · exact h.keeps (keeps_ultrasensorInit s)
  · exact unread_dhtTimerCbk now h
  · exact h.keeps (keeps_gpioUniCbk gs now s)
  · have hq : Unread { s with driver := { s.driver with mainTaskQ := q } } := { h with }
    rcases mainTask_cases hq sig with ⟨-, -, he⟩ | ⟨-, he⟩
    · rw [he]
      exact unread_dhtTestSeq hq
    · rw [he]
      exact hq

/-! ### The ticks of a measurement -/

theorem timed_init : Timed timed.init where
  armed := by decide
  counter := rfl
  before _ := rfl
  running h := absurd h (by decide)
  ended h := absurd h (by decide)

theorem timed_dhtTestSeq (s : State) : Timed (dhtTestSeq s, 0) where
  armed := iff_of_true rfl rfl
  counter := rfl
  before _ := rfl
  running _ := Nat.zero_le 10
  ended h := SensorSts.noConfusion (show SensorSts.prep = .err from h)

theorem Timed.keeps {s s' : State} {n : ℕ} (h : Timed (s, n)) (hk : Keeps s s') : Timed (s', n) where
  armed := by
    show s'.driver.dhtTimer = true ↔ s'.driver.dhtHandle.state = .prep
    rw [hk.timer.1, hk.dhtHandle]
    exact h.armed
  counter := by
    show s'.dhtTimeout.toNat = n
    rw [hk.timer.2]
    exact h.counter
  before := by
    show s'.driver.dhtHandle.state = .idle → n = 0
    rw [hk.dhtHandle]
    exact h.before
  running := by
    show s'.driver.dhtHandle.state = .prep → n ≤ 10
    rw [hk.dhtHandle]
    exact h.running
  ended := by
    show s'.driver.dhtHandle.state = .err → n = 11
    rw [hk.dhtHandle]
    exact h.ended

/-- A tick: the eleventh one is the time-out. -/
theorem timed_dhtTimerCbk (now : UInt32) {s : State} {n : ℕ} (h : Timed (s, n)) (harmed : s.driver.dhtTimer = true) :
    Timed (dhtTimerCbk now s, n + 1) := by
  have hprep : s.driver.dhtHandle.state = .prep := h.armed.mp harmed
  have hn : n ≤ 10 := h.running hprep
  have hcnt : (s.dhtTimeout + 1).toNat = n + 1 := by
    have hc : s.dhtTimeout.toNat = n := h.counter
    rw [UInt8.toNat_add, hc]
    exact Nat.mod_eq_of_lt (Nat.lt_of_le_of_lt (Nat.succ_le_succ hn) (by decide))
  have hlast : DHT_TIMEOUT < s.dhtTimeout + 1 ↔ 10 < n + 1 := by
    rw [UInt8.lt_iff_toNat_lt, hcnt]
    rfl
  rcases dhtTimerCbk_eq now s with ⟨hlt, he⟩ | ⟨hlt, he⟩
  · rw [he]
    exact
      { armed := h.armed
        counter := hcnt
        before := fun hidle => SensorSts.noConfusion (hprep.symm.trans hidle)
        running := fun _ => Nat.not_lt.mp (mt hlast.mpr hlt)
        ended := fun herr => SensorSts.noConfusion (hprep.symm.trans herr) }
  · have hten : n + 1 = 11 := Nat.le_antisymm (Nat.succ_le_succ hn) (hlast.mp hlt)
    have herr : (({ s.driver.setState .err with dhtTimer := false } : Driver).post).dhtHandle.state = .err :=
      congrArg DhtHandler.state (timeout_dhtHandle s.driver)
    rw [he]
    exact
      { armed := iff_of_false (fun ht => Bool.false_ne_true ((timeout_dhtTimer s.driver).symm.trans ht))
          fun hp => SensorSts.noConfusion (herr.symm.trans hp)
        counter := hcnt
        before := fun hidle => SensorSts.noConfusion (herr.symm.trans hidle)
        running := fun hp => SensorSts.noConfusion (herr.symm.trans hp)
        ended := fun _ => hten }

theorem timed_step (s : State × ℕ) (e : Event) (s' : State × ℕ) (h : Unread s.1 ∧ Timed s)
    (hs : timed.step s e = some s') : Unread s'.1 ∧ Timed s' := by
  obtain ⟨s, n⟩ := s
  obtain ⟨s', n'⟩ := s'
  obtain ⟨hu, ht⟩ := h
  obtain ⟨hs, hn⟩ := Machine.history_step.mp hs
  refine ⟨unread_step s e s' hu hs, ?_⟩
  simp only at hs hn
  rcases step_cases hs with ⟨rfl, rfl⟩ | ⟨rfl, rfl⟩ | ⟨now, rfl, harmed, rfl⟩ | ⟨gs, now, now', rfl, rfl⟩ |
    ⟨sig, q, rfl, hq, rfl⟩
  · obtain rfl : n' = 0 := hn
    exact timed_dhtTestSeq s
  · obtain rfl : n' = n := hn
    exact ht.keeps (keeps_ultrasensorInit s)
  · obtain rfl : n' = n + 1 := hn
    exact timed_dhtTimerCbk now ht harmed
  · obtain rfl : n' = n := hn
    exact ht.keeps (keeps_gpioUniCbk gs now s)
  · have hu' : Unread { s with driver := { s.driver with mainTaskQ := q } } := ⟨hu.state, hu.values, hu.capture⟩
    simp only [ticks, hq, List.head?_cons, Option.some.injEq] at hn
    rcases mainTask_cases hu' sig with ⟨hsig, herr, he⟩ | ⟨hother, he⟩
    · rw [if_pos ⟨hsig, herr⟩] at hn
      rw [he, hn]
      exact timed_dhtTestSeq _
    · rw [if_neg fun hc => hother hc.1 hc.2] at hn
      rw [he, hn]
      exact ⟨ht.armed, ht.counter, ht.before, ht.running, ht.ended⟩

/-- **No run reads the DHT22**, whatever the sensor does: the driver is never in a capture
nor has it a reading, and its values are those of the reset. A measurement that was
started has its timer armed, which counts its ticks, and it ends in `ERR`, at its
eleventh tick. -/
theorem never_measures (es : List Event) :
    timed.Throughout (fun s => Unread s.1 ∧ Timed s) timed.init es :=
  timed.throughout_of_inv timed_step ⟨unread_init, timed_init⟩ es

/-! ### The next measurement -/

/-- The time-out has left its event. -/
structure Inv (s : State) : Prop where
  unread : Unread s
  posted : s.driver.dhtHandle.state = .err → DHT_DRIVER_SOURCE ∈ s.driver.mainTaskQ
  signals : ∀ sig ∈ s.driver.mainTaskQ, sig = DHT_DRIVER_SOURCE ∨ sig = HCSR04_DRIVER_SOURCE
  room : s.driver.mainTaskQ.length ≤ MAIN_TASK_Q_SIZE

theorem inv_init : Inv machine.init where
  unread := unread_init
  posted h := absurd h (by decide)
  signals sig h := absurd h List.not_mem_nil
  room := Nat.zero_le 3

theorem inv_dhtTestSeq {s : State} (hu : Unread s)
    (hq : ∀ sig ∈ s.driver.mainTaskQ, sig = DHT_DRIVER_SOURCE ∨ sig = HCSR04_DRIVER_SOURCE)
    (hr : s.driver.mainTaskQ.length ≤ MAIN_TASK_Q_SIZE) : Inv (dhtTestSeq s) where
  unread := unread_dhtTestSeq hu
  posted h := SensorSts.noConfusion (show SensorSts.prep = .err from h)
  signals := hq
  room := hr

theorem Inv.keeps {s s' : State} (h : Inv s) (hk : Keeps s s') : Inv s' := by
  refine
    { unread := h.unread.keeps hk
      posted := fun herr => ?_
      signals := fun sig hsig => ?_
      room := ?_ }
  · rw [hk.dhtHandle] at herr
    rcases hk.queue with hq | ⟨-, hq⟩ <;> rw [hq]
    · exact h.posted herr
    · exact List.mem_append_left _ (h.posted herr)
  · rcases hk.queue with hq | ⟨-, hq⟩ <;> rw [hq] at hsig
    · exact h.signals sig hsig
    · rcases List.mem_append.mp hsig with hsig | hsig
      · exact h.signals sig hsig
      · exact .inr (List.mem_singleton.mp hsig)
  · rcases hk.queue with hq | ⟨hlt, hq⟩ <;> rw [hq]
    · exact h.room
    · rw [List.length_append]
      exact hlt

/-- A post finds room, or a queue that holds the event or nothing but results of the
HC-SR04. -/
theorem mem_post {d : Driver} (hq : ∀ sig ∈ d.mainTaskQ, sig = DHT_DRIVER_SOURCE ∨ sig = HCSR04_DRIVER_SOURCE)
    (hr : d.mainTaskQ.length ≤ MAIN_TASK_Q_SIZE) :
    DHT_DRIVER_SOURCE ∈ d.post.mainTaskQ ↔
      d.mainTaskQ ≠ List.replicate MAIN_TASK_Q_SIZE HCSR04_DRIVER_SOURCE := by
  unfold Driver.post
  split
  · next hlt =>
    refine iff_of_true (List.mem_append_right _ (List.mem_singleton_self _)) fun he => ?_
    rw [he, List.length_replicate] at hlt
    exact Nat.lt_irrefl _ hlt
  · next hfull =>
    have hlen : d.mainTaskQ.length = MAIN_TASK_Q_SIZE := Nat.le_antisymm hr (not_lt.mp hfull)
    constructor
    · intro hmem he
      rw [he] at hmem
      exact absurd (List.eq_of_mem_replicate hmem) (by decide)
    · intro hne
      by_contra hmem
      refine hne (List.eq_replicate_iff.mpr ⟨hlen, fun sig hsig => ?_⟩)
      rcases hq sig hsig with rfl | h
      · exact absurd hsig hmem
      · exact h

theorem post_signals {d : Driver} (hq : ∀ sig ∈ d.mainTaskQ, sig = DHT_DRIVER_SOURCE ∨ sig = HCSR04_DRIVER_SOURCE)
    (hr : d.mainTaskQ.length ≤ MAIN_TASK_Q_SIZE) :
    (∀ sig ∈ d.post.mainTaskQ, sig = DHT_DRIVER_SOURCE ∨ sig = HCSR04_DRIVER_SOURCE) ∧
      d.post.mainTaskQ.length ≤ MAIN_TASK_Q_SIZE := by
  unfold Driver.post
  split
  · next hlt =>
    refine ⟨fun sig hsig => ?_, ?_⟩
    · rcases List.mem_append.mp hsig with hsig | hsig
      · exact hq sig hsig
      · exact .inl (List.mem_singleton.mp hsig)
    · rw [List.length_append]
      exact hlt
  · exact ⟨hq, hr⟩

theorem inv_dhtTimerCbk (now : UInt32) {s : State} (h : Inv s)
    (hk : Heard s (.tick now)) : Inv (dhtTimerCbk now s) := by
  have hu := unread_dhtTimerCbk now h.unread
  rcases dhtTimerCbk_eq now s with ⟨hlt, he⟩ | ⟨hlt, he⟩
  · rw [he] at hu ⊢
    exact
      { unread := hu
        posted := h.posted
        signals := h.signals
        room := h.room }
  · set d : Driver := { s.driver.setState .err with dhtTimer := false }
    have hqueue : (dhtTimerCbk now s).driver.mainTaskQ = d.post.mainTaskQ := by rw [he]; rfl
    obtain ⟨hsignals, hroom⟩ := post_signals (d := d) h.signals h.room
    refine
      { unread := hu
        posted := fun _ => ?_
        signals := hqueue ▸ hsignals
        room := hqueue ▸ hroom }
    rw [hqueue]
    exact (mem_post (d := d) h.signals h.room).mpr (hk hlt)

theorem inv_step : machine.Preserves Inv Heard := by
  intro s e s' h hk hs
  rcases step_cases hs with ⟨-, rfl⟩ | ⟨-, rfl⟩ | ⟨now, rfl, harmed, rfl⟩ | ⟨gs, now, now', -, rfl⟩ |
    ⟨sig, q, -, hq, rfl⟩
  · exact inv_dhtTestSeq h.unread h.signals h.room
  · exact h.keeps (keeps_ultrasensorInit s)
  · exact inv_dhtTimerCbk now h hk
  · exact h.keeps (keeps_gpioUniCbk gs now s)
  · have hu : Unread { s with driver := { s.driver with mainTaskQ := q } } := { h.unread with }
    have hsignals : ∀ sig ∈ q, sig = DHT_DRIVER_SOURCE ∨ sig = HCSR04_DRIVER_SOURCE := fun x hx =>
      h.signals x (hq ▸ List.mem_cons_of_mem sig hx)
    have hroom : q.length ≤ MAIN_TASK_Q_SIZE := by
      have hle := h.room
      rw [hq, List.length_cons] at hle
      omega
    rcases mainTask_cases hu sig with ⟨-, -, he⟩ | ⟨hother, he⟩
    · rw [he]
      exact inv_dhtTestSeq hu hsignals hroom
    · rw [he]
      refine ⟨hu, fun herr => ?_, hsignals, hroom⟩
      -- the event that was taken is not the one of the time-out
      have hmem := h.posted herr
      rw [hq] at hmem
      rcases List.mem_cons.mp hmem with hsig | hmem
      · exact absurd herr (hother hsig.symm)
      · exact hmem

theorem Inv.not_lost {s : State} (h : Inv s) : ¬ Lost s := fun hl => hl.2.2 (h.posted hl.1)

/-- A time-out that is not heard is the last thing that happens to the measurements. -/
theorem lost_step (s : State) (e : Event) (s' : State) (h : Inv s) (hk : ¬ Heard s e)
    (hs : machine.step s e = some s') : ¬ ¬ Lost s' := by
  rcases step_cases hs with ⟨rfl, -⟩ | ⟨rfl, -⟩ | ⟨now, rfl, harmed, rfl⟩ | ⟨gs, now, now', rfl, -⟩ | ⟨sig, q, rfl, -, -⟩
  · exact absurd trivial hk
  · exact absurd trivial hk
  · obtain ⟨hlt, hq⟩ := Classical.not_imp.mp hk
    rcases dhtTimerCbk_eq now s with ⟨hn, -⟩ | ⟨-, he⟩
    · exact absurd hlt hn
    · set d : Driver := { s.driver.setState .err with dhtTimer := false } with hd
      rw [he, not_not]
      refine ⟨by simp [dhtGpioCbkSetup, hd], ?_, ?_⟩
      · show d.post.dhtTimer = false
        unfold Driver.post
        split <;> rfl
      · exact fun hmem => hq ((mem_post (d := d) h.signals h.room).mp hmem)
  · exact absurd trivial hk
  · exact absurd trivial hk

/-- **When the measurements go on.** In a run no measurement is left without the event
that starts the next one, if and only if no time-out finds three results of the HC-SR04
in the queue. -/
theorem retries_iff (es : List Event) :
    machine.Throughout (fun s => ¬ Lost s) machine.init es ↔ machine.Along Heard machine.init es :=
  machine.throughout_iff_along (fun _ h => h.not_lost) inv_step lost_step inv_init es

end DevRetry
end Netacademia
