/-
# Two sensors on one interrupt

`orai_munka/user/hcsr04.c` and `interrupts.c` beside the DHT driver. The
HC-SR04 driver takes the time between two edges of `HC_INPUT`. Both drivers
attach a handler of their own to the one GPIO interrupt, where `GpioCbk` calls
both, and both enable and disable it for the two pins. `dhtGpioCbk` sets `MEAS`
before it looks at the pin.

The sensors together run beside two runs with one sensor each, on the events
that are left when those of the other sensor are taken out.

* `undisturbed_iff`: each driver is as in its own run, at every point of a run,
  exactly when every interrupt is seen by its own driver as in that run, and by
  the other one not at all or without effect.
* `start_takes_edges`: `ultraSStart` during a DHT capture.
-/
import Netacademia.Lib.Machine
import Netacademia.DhtCalls

namespace Netacademia
namespace Sensors

open Lib Dht

/-! ### The HC-SR04 driver -/

/-- The statics of hcsr04.c, and how often it posted `system_os_post(1, 0, 0)`. -/
structure Hcsr04 where
  ultraSensSts : UInt8
  timerOffset : UInt32
  hcsr04ResultRaw : UInt32
  posts : ℕ
  deriving DecidableEq, Repr

/-- `BIT(HC_INPUT)` -/
def hcInputBit : UInt32 := (1 : UInt32) <<< 4

/-- `ultraSInit`, but for the interrupt. -/
def ultraSInit (h : Hcsr04) : Hcsr04 := { h with ultraSensSts := 0 }

def ultraSCbkGpio (gpioSts now : UInt32) (h : Hcsr04) : Hcsr04 :=
  if gpioSts &&& hcInputBit ≠ 0 then
    if h.ultraSensSts = 0 then
      { h with timerOffset := now, ultraSensSts := h.ultraSensSts + 1 }
    else if h.ultraSensSts = 1 then
      { h with
        hcsr04ResultRaw := now - h.timerOffset
        ultraSensSts := h.ultraSensSts + 1
        posts := h.posts + 1 }
    else h
  else h

/-! ### The system -/

/-- The handlers that `ETS_GPIO_INTR_ATTACH` is given. -/
inductive Handler
  | dhtGpioCbk | ultraSCbkGpio
  deriving DecidableEq, Repr

/-- Both drivers; the enable of the interrupt is in the board. -/
structure State where
  board : Board
  hc : Hcsr04
  /-- The handler attached last. -/
  handler : Option Handler

def State.reset : State := ⟨.reset, ⟨0, 0, 0, 0⟩, none⟩

inductive Event
  | dhtStart
  | ultraSStart
  /-- `DhtTimer` expires. -/
  | tick (now : UInt32)
  /-- The GPIO interrupt: to `GpioCbk`, or to the handler attached last; the status
  register, and the times the handlers read. -/
  | gpio (gpioCbk : Bool) (gpioStatus now now' hcNow : UInt32)
  /-- mainTask takes the first event of its queue. -/
  | dispatch

/-- Whether an interrupt runs `dhtGpioCbk`: directly, or out of `GpioCbk`. -/
def runsDht (s : State) (gpioCbk : Bool) : Bool :=
  s.board.gpioIntr && (gpioCbk || s.handler == some .dhtGpioCbk)

def runsHc (s : State) (gpioCbk : Bool) : Bool :=
  s.board.gpioIntr && (gpioCbk || s.handler == some .ultraSCbkGpio)

def handle (s : State) : Event → State
  | .dhtStart => { s with board := DhtCalls.dhtStart s.board }
  | .ultraSStart =>
    { s with board := { s.board with gpioIntr := true }, hc := ultraSInit s.hc, handler := some .ultraSCbkGpio }
  | .tick now =>
    if s.board.dhtTimer then
      { s with board := DhtCalls.dhtTimerCbk now s.board, handler := some .dhtGpioCbk }
    else s
  | .gpio gpioCbk gpioStatus now now' hcNow =>
    { s with
      board := if runsDht s gpioCbk then dhtGpioCbk gpioStatus now now' s.board else s.board
      hc := if runsHc s gpioCbk then ultraSCbkGpio gpioStatus hcNow s.hc else s.hc }
  | .dispatch => { s with board := { s.board with mainTaskQ := s.board.mainTaskQ.tail } }

/-- The event without the HC-SR04: its starts and the edges of `HC_INPUT` are taken out. -/
def Event.dht : Event → Option Event
  | .ultraSStart => none
  | .gpio gpioCbk gpioStatus now now' hcNow =>
    if gpioStatus &&& hcInputBit ≠ 0 ∧ gpioStatus &&& dhtPinBit = 0 then none
    else some (.gpio gpioCbk (gpioStatus &&& ~~~hcInputBit) now now' hcNow)
  | e => some e

/-- The event without the DHT sensor. -/
def Event.hc : Event → Option Event
  | .ultraSStart => some .ultraSStart
  | .gpio gpioCbk gpioStatus now now' hcNow =>
    if gpioStatus &&& dhtPinBit ≠ 0 ∧ gpioStatus &&& hcInputBit = 0 then none
    else some (.gpio gpioCbk (gpioStatus &&& ~~~dhtPinBit) now now' hcNow)
  | _ => none

/-- A step of a run that sees only part of the events. -/
def observe (keep : Event → Option Event) (s : State) (e : Event) : State :=
  match keep e with
  | some e' => handle s e'
  | none => s

/-- The run of both sensors, the one of the DHT sensor, and the one of the HC-SR04. -/
structure Runs where
  both : State
  dht : State
  hc : State

def runs : Machine Runs Event where
  init := ⟨.reset, .reset, .reset⟩
  step r e := some ⟨handle r.both e, observe Event.dht r.dht e, observe Event.hc r.hc e⟩

/-- The two other runs are runs on what is left of the events. -/
theorem runs_eq (r : Runs) (es : List Event) :
    runs.run r es = some ⟨es.foldl handle r.both, (es.filterMap Event.dht).foldl handle r.dht,
      (es.filterMap Event.hc).foldl handle r.hc⟩ := by
  induction es generalizing r with
  | nil => rfl
  | cons e es ih =>
    rw [Machine.run_cons]
    change runs.run ⟨handle r.both e, observe Event.dht r.dht e, observe Event.hc r.hc e⟩ es = _
    rw [ih, List.foldl_cons, List.filterMap_cons, List.filterMap_cons]
    unfold observe
    cases e.dht <;> cases e.hc <;> rfl

/-- What the DHT driver keeps and posts. -/
def SameDht (a b : Board) : Prop :=
  a.dhtHandle = b.dhtHandle ∧ a.dhtResult = b.dhtResult ∧ a.dhtResultIdx = b.dhtResultIdx ∧
    a.mainTaskQ = b.mainTaskQ

/-- Neither driver can tell that the other sensor is there. -/
def Apart (r : Runs) : Prop := SameDht r.both.board r.dht.board ∧ r.both.hc = r.hc.hc

/-- An interrupt disturbs neither driver: `dhtGpioCbk` runs as in the run of the DHT
sensor, or finds no edge of it and `MEAS` set already; `ultraSCbkGpio` runs as
in the run of the HC-SR04, or finds no edge of it or its measurement over. -/
def Undisturbed (r : Runs) : Event → Prop
  | .gpio gpioCbk gpioStatus _ _ _ =>
    ((runsDht r.both gpioCbk = true ↔
        (gpioStatus &&& hcInputBit = 0 ∨ gpioStatus &&& dhtPinBit ≠ 0) ∧ runsDht r.dht gpioCbk = true) ∨
      (gpioStatus &&& dhtPinBit = 0 ∧ r.both.board.dhtHandle.state = .meas)) ∧
    ((runsHc r.both gpioCbk = true ↔
        (gpioStatus &&& dhtPinBit = 0 ∨ gpioStatus &&& hcInputBit ≠ 0) ∧ runsHc r.hc gpioCbk = true) ∨
      gpioStatus &&& hcInputBit = 0 ∨ 2 ≤ r.both.hc.ultraSensSts)
  | _ => True

/-! ### The DHT driver in two runs -/

/-- Two boards that differ at most in the enable of the interrupt. -/
def Agree (a b : Board) : Prop := ∃ x, a = { b with gpioIntr := x }

section Dht

variable {a b : Board}

theorem Agree.sameDht (h : Agree a b) : SameDht a b := by
  obtain ⟨x, rfl⟩ := h
  exact ⟨rfl, rfl, rfl, rfl⟩

theorem Agree.refl (b : Board) : Agree b b := ⟨b.gpioIntr, rfl⟩

theorem Agree.enable (h : Agree a b) (y : Bool) : Agree { a with gpioIntr := y } b := by
  obtain ⟨x, rfl⟩ := h
  exact ⟨y, rfl⟩

theorem Agree.setState (h : Agree a b) (st : DhtState) : Agree (a.setState st) (b.setState st) := by
  obtain ⟨x, rfl⟩ := h
  exact ⟨x, rfl⟩

theorem Agree.post (h : Agree a b) : Agree a.post b.post := by
  obtain ⟨x, rfl⟩ := h
  refine ⟨x, ?_⟩
  unfold Board.post
  split <;> rfl

theorem Agree.dhtStart (h : Agree a b) : Agree (DhtCalls.dhtStart a) (DhtCalls.dhtStart b) := by
  obtain ⟨x, rfl⟩ := h
  exact ⟨x, rfl⟩

theorem Agree.dispatch (h : Agree a b) :
    Agree { a with mainTaskQ := a.mainTaskQ.tail } { b with mainTaskQ := b.mainTaskQ.tail } := by
  obtain ⟨x, rfl⟩ := h
  exact ⟨x, rfl⟩

theorem Agree.dhtGpioCbkSetup (h : Agree a b) (now : UInt32) :
    Agree (DhtCalls.dhtGpioCbkSetup now a) (DhtCalls.dhtGpioCbkSetup now b) := by
  obtain ⟨x, rfl⟩ := h
  exact ⟨true, rfl⟩

theorem Agree.timeout (h : Agree a b) : Agree (DhtCalls.timeout a) (DhtCalls.timeout b) := by
  refine Agree.post (Agree.setState ?_ .err)
  obtain ⟨x, rfl⟩ := h
  exact ⟨x, rfl⟩

theorem Agree.dhtTimerCbk (h : Agree a b) (now : UInt32) :
    Agree (DhtCalls.dhtTimerCbk now a) (DhtCalls.dhtTimerCbk now b) := by
  have hcount : Agree { a with dhtHandle := { a.dhtHandle with timeoutCnt := a.dhtHandle.timeoutCnt + 1 } }
      { b with dhtHandle := { b.dhtHandle with timeoutCnt := b.dhtHandle.timeoutCnt + 1 } } := by
    obtain ⟨x, rfl⟩ := h
    exact ⟨x, rfl⟩
  simp only [DhtCalls.dhtTimerCbk, h.sameDht.1] at hcount ⊢
  refine Agree.dhtGpioCbkSetup ?_ now
  split
  · exact hcount.timeout
  · exact hcount

/-- The end of a capture disables the interrupt, whoever enabled it. -/
theorem Agree.finish (h : Agree a b) : finish a = finish b := by
  have hoff : ({ a with gpioIntr := false } : Board) = { b with gpioIntr := false } := by
    obtain ⟨x, rfl⟩ := h
    rfl
  unfold Dht.finish
  rw [hoff]

theorem Agree.dhtGpioCbk (h : Agree a b) (gs n n' : UInt32) : Agree (dhtGpioCbk gs n n' a) (dhtGpioCbk gs n n' b) := by
  have hidx : a.dhtResultIdx = b.dhtResultIdx := h.sameDht.2.2.1
  have hrecord : Agree (record n n' (a.setState .meas)) (record n n' (b.setState .meas)) := by
    obtain ⟨x, rfl⟩ := h
    exact ⟨x, rfl⟩
  rcases dhtGpioCbk_cases b gs n n' with ⟨hs, he⟩ | ⟨hs, ho, he⟩ | ⟨hs, hl, he⟩
  · rw [he, dhtGpioCbk_other a gs n n' hs]
    exact h.setState .meas
  · rw [he, dhtGpioCbk_open a gs n n' hs (hidx ▸ ho)]
    exact hrecord
  · rw [he, dhtGpioCbk_of_last a gs n n' (by simp [lastEdge, hs, hidx, hl]), hrecord.finish]
    exact Agree.refl _

/-- Without an edge and in `MEAS` the handler does nothing. -/
theorem dhtGpioCbk_idle {gs n n' : UInt32} (hs : gs &&& dhtPinBit = 0) (hm : b.dhtHandle.state = .meas) :
    dhtGpioCbk gs n n' b = b := by
  rw [dhtGpioCbk_other b gs n n' hs, Board.setState, ← hm]

/-- Otherwise it leaves a trace. -/
theorem dhtGpioCbk_seen {gs n n' : UInt32} (h : ¬ (gs &&& dhtPinBit = 0 ∧ b.dhtHandle.state = .meas)) :
    ¬ SameDht (dhtGpioCbk gs n n' b) b := by
  rintro ⟨hh, -, hi, -⟩
  have hne : b.dhtResultIdx + 1 ≠ b.dhtResultIdx := by simp
  rcases dhtGpioCbk_cases b gs n n' with ⟨hs, he⟩ | ⟨-, -, he⟩ | ⟨-, -, he⟩
  · rw [he] at hh
    exact h ⟨hs, hh ▸ rfl⟩
  · rw [he] at hi
    exact hne hi
  · rw [he, (finish_keeps _).2.1] at hi
    exact hne hi

theorem SameDht.symm (h : SameDht a b) : SameDht b a := ⟨h.1.symm, h.2.1.symm, h.2.2.1.symm, h.2.2.2.symm⟩

theorem SameDht.trans {c : Board} (h : SameDht a b) (h' : SameDht b c) : SameDht a c :=
  ⟨h.1.trans h'.1, h.2.1.trans h'.2.1, h.2.2.1.trans h'.2.2.1, h.2.2.2.trans h'.2.2.2⟩

/-- The handler runs in the one and in the other, or in one of them without effect. -/
def SameRuns (p q : Prop) (gs : UInt32) (a : Board) : Prop :=
  (p ↔ q) ∨ (gs &&& dhtPinBit = 0 ∧ a.dhtHandle.state = .meas)

variable {p q : Prop} [Decidable p] [Decidable q] {gs : UInt32} (n n' : UInt32)

theorem agree_gpio (h : Agree a b) (hr : SameRuns p q gs a) :
    Agree (if p then dhtGpioCbk gs n n' a else a) (if q then dhtGpioCbk gs n n' b else b) := by
  by_cases hp : p <;> by_cases hq : q
  · rw [if_pos hp, if_pos hq]
    exact h.dhtGpioCbk gs n n'
  · obtain ⟨hs, hm⟩ := hr.resolve_left fun hpq => hq (hpq.mp hp)
    rw [if_pos hp, if_neg hq, dhtGpioCbk_idle hs hm]
    exact h
  · obtain ⟨hs, hm⟩ := hr.resolve_left fun hpq => hp (hpq.mpr hq)
    rw [if_neg hp, if_pos hq, dhtGpioCbk_idle hs (h.sameDht.1 ▸ hm)]
    exact h
  · rw [if_neg hp, if_neg hq]
    exact h

theorem not_sameDht_gpio (h : Agree a b) (hr : ¬ SameRuns p q gs a) :
    ¬ SameDht (if p then dhtGpioCbk gs n n' a else a) (if q then dhtGpioCbk gs n n' b else b) := by
  obtain ⟨hpq, hidle⟩ := not_or.mp hr
  by_cases hp : p <;> by_cases hq : q
  · exact absurd (iff_of_true hp hq) hpq
  · rw [if_pos hp, if_neg hq]
    exact fun hs => dhtGpioCbk_seen hidle (hs.trans h.sameDht.symm)
  · rw [if_neg hp, if_pos hq]
    rw [h.sameDht.1] at hidle
    exact fun hs => dhtGpioCbk_seen hidle (hs.symm.trans h.sameDht)
  · exact absurd (iff_of_false hp hq) hpq

end Dht

/-! ### The HC-SR04 driver in two runs -/

section Hc

variable {x : Hcsr04} {gs now : UInt32}

theorem ultraSCbkGpio_idle (h : gs &&& hcInputBit = 0 ∨ 2 ≤ x.ultraSensSts) : ultraSCbkGpio gs now x = x := by
  rcases h with h | h
  · rw [ultraSCbkGpio, if_neg (not_not.mpr h)]
  · have h0 : x.ultraSensSts ≠ 0 := fun he => absurd (he ▸ h) (by decide)
    have h1 : x.ultraSensSts ≠ 1 := fun he => absurd (he ▸ h) (by decide)
    rw [ultraSCbkGpio, if_neg h0, if_neg h1, ite_self]

/-- An edge during a measurement counts the state up. -/
theorem ultraSCbkGpio_seen (h : ¬ (gs &&& hcInputBit = 0 ∨ 2 ≤ x.ultraSensSts)) : ultraSCbkGpio gs now x ≠ x := by
  obtain ⟨hs, hsts⟩ := not_or.mp h
  have hlt : x.ultraSensSts.toNat < 2 := by simpa [UInt8.le_iff_toNat_le] using hsts
  intro he
  have hne : x.ultraSensSts + 1 ≠ x.ultraSensSts := by simp
  refine hne (.trans ?_ (congrArg Hcsr04.ultraSensSts he))
  rw [ultraSCbkGpio, if_pos hs]
  by_cases h0 : x.ultraSensSts = 0
  · rw [if_pos h0]
  · have h1 : x.ultraSensSts = 1 := UInt8.toNat_inj.mp (by
      have : x.ultraSensSts.toNat ≠ 0 := fun hz => h0 (UInt8.toNat_inj.mp hz)
      change x.ultraSensSts.toNat = 1
      omega)
    rw [if_neg h0, if_pos h1]

/-- The handler runs in the one and in the other, or without effect. -/
theorem hc_gpio_iff {p q : Prop} [Decidable p] [Decidable q] :
    (if p then ultraSCbkGpio gs now x else x) = (if q then ultraSCbkGpio gs now x else x) ↔
      (p ↔ q) ∨ gs &&& hcInputBit = 0 ∨ 2 ≤ x.ultraSensSts := by
  by_cases hidle : gs &&& hcInputBit = 0 ∨ 2 ≤ x.ultraSensSts
  · rw [ultraSCbkGpio_idle hidle, ite_self, ite_self]
    exact iff_of_true rfl (Or.inr hidle)
  · have hseen : ultraSCbkGpio gs now x ≠ x := ultraSCbkGpio_seen hidle
    by_cases hp : p <;> by_cases hq : q
    · simp [hp, hq]
    · simp [hp, hq, hidle, hseen]
    · simp [hp, hq, hidle, hseen.symm]
    · simp [hp, hq]

end Hc

/-! ### What the single runs see of an interrupt -/

section Observe

variable (s : State) (gpioCbk : Bool) (gs n n' hn : UInt32)

theorem observe_dht_gpio : (observe Event.dht s (.gpio gpioCbk gs n n' hn)).board =
    if (gs &&& hcInputBit = 0 ∨ gs &&& dhtPinBit ≠ 0) ∧ runsDht s gpioCbk = true then dhtGpioCbk gs n n' s.board
    else s.board := by
  have hmask : gs &&& ~~~hcInputBit &&& dhtPinBit = gs &&& dhtPinBit := by
    rw [UInt32.and_assoc, show ~~~hcInputBit &&& dhtPinBit = dhtPinBit by decide]
  have hcbk : dhtGpioCbk (gs &&& ~~~hcInputBit) n n' s.board = dhtGpioCbk gs n n' s.board := by
    rw [dhtGpioCbk, dhtGpioCbk, hmask]
  by_cases h : gs &&& hcInputBit ≠ 0 ∧ gs &&& dhtPinBit = 0
  · rw [if_neg fun hk => hk.1.elim h.1 fun hd => hd h.2, observe, Event.dht, if_pos h]
  · have hkept : gs &&& hcInputBit = 0 ∨ gs &&& dhtPinBit ≠ 0 := by
      by_contra hn
      exact h (not_or.mp hn |>.imp id not_not.mp)
    simp only [observe, Event.dht, if_neg h, handle, hcbk, hkept, true_and]

theorem observe_hc_gpio : (observe Event.hc s (.gpio gpioCbk gs n n' hn)).hc =
    if (gs &&& dhtPinBit = 0 ∨ gs &&& hcInputBit ≠ 0) ∧ runsHc s gpioCbk = true then ultraSCbkGpio gs hn s.hc
    else s.hc := by
  have hmask : gs &&& ~~~dhtPinBit &&& hcInputBit = gs &&& hcInputBit := by
    rw [UInt32.and_assoc, show ~~~dhtPinBit &&& hcInputBit = hcInputBit by decide]
  have hcbk : ultraSCbkGpio (gs &&& ~~~dhtPinBit) hn s.hc = ultraSCbkGpio gs hn s.hc := by
    rw [ultraSCbkGpio, ultraSCbkGpio, hmask]
  by_cases h : gs &&& dhtPinBit ≠ 0 ∧ gs &&& hcInputBit = 0
  · rw [if_neg fun hk => hk.1.elim h.1 fun hd => hd h.2, observe, Event.hc, if_pos h]
  · have hkept : gs &&& dhtPinBit = 0 ∨ gs &&& hcInputBit ≠ 0 := by
      by_contra hn
      exact h (not_or.mp hn |>.imp id not_not.mp)
    simp only [observe, Event.hc, if_neg h, handle, hcbk, hkept, true_and]

end Observe

/-! ### The three runs -/

/-- The drivers are in the same place, down to what they do not show. -/
def Inv (r : Runs) : Prop := Agree r.both.board r.dht.board ∧ r.both.hc = r.hc.hc

theorem inv_apart (r : Runs) (h : Inv r) : Apart r := ⟨h.1.sameDht, h.2⟩

theorem inv_step : runs.Preserves Inv Undisturbed := by
  rintro r e r' ⟨hd, hh⟩ hu hs
  obtain rfl := Option.some.inj hs
  have htimer : r.both.board.dhtTimer = r.dht.board.dhtTimer := by
    obtain ⟨x, hx⟩ := hd
    rw [hx]
  cases e with
  | dhtStart => exact ⟨hd.dhtStart, hh⟩
  | ultraSStart => exact ⟨hd.enable true, congrArg ultraSInit hh⟩
  | tick now =>
    simp only [Inv, handle, observe, Event.dht, Event.hc, htimer]
    split
    · exact ⟨hd.dhtTimerCbk now, hh⟩
    · exact ⟨hd, hh⟩
  | gpio gpioCbk gs n n' hn =>
    refine ⟨?_, ?_⟩
    · rw [observe_dht_gpio]
      exact agree_gpio n n' hd hu.1
    · rw [observe_hc_gpio, ← hh]
      exact hc_gpio_iff.mpr hu.2
  | dispatch => exact ⟨hd.dispatch, hh⟩

/-- An interrupt that disturbs a driver leaves a trace in it. -/
theorem disturbed_step (r : Runs) (e : Event) (r' : Runs) (h : Inv r) (hu : ¬ Undisturbed r e)
    (hs : runs.step r e = some r') : ¬ Apart r' := by
  obtain ⟨hd, hh⟩ := h
  obtain rfl := Option.some.inj hs
  cases e with
  | gpio gpioCbk gs n n' hn =>
    rintro ⟨hsd, hsh⟩
    refine hu ⟨?_, ?_⟩
    · by_contra hr
      rw [observe_dht_gpio] at hsd
      exact not_sameDht_gpio n n' hd hr hsd
    · rw [observe_hc_gpio, ← hh] at hsh
      exact hc_gpio_iff.mp hsh
  | _ => exact absurd trivial hu

/-- **When the sensors do not disturb each other.** At every point of a run, the
state and the posts of each driver are those of the run without the other
sensor, if and only if no interrupt of the run disturbs a driver. -/
theorem undisturbed_iff (es : List Event) :
    runs.Throughout Apart runs.init es ↔ runs.Along Undisturbed runs.init es :=
  runs.throughout_iff_along inv_apart inv_step disturbed_step ⟨Agree.refl _, rfl⟩ es

/-- An HC-SR04 started during a capture takes the next edge of the DHT sensor. -/
theorem start_takes_edges : ¬ runs.Throughout Apart runs.init
    [.dhtStart, .tick 0, .ultraSStart, .gpio false dhtPinBit 50 50 50] := by
  intro h
  have hidx : runs.Throughout (fun r => r.both.board.dhtResultIdx = r.dht.board.dhtResultIdx) runs.init
      [.dhtStart, .tick 0, .ultraSStart, .gpio false dhtPinBit 50 50 50] := h.mono _ fun _ ha => ha.1.2.2.1
  revert hidx
  decide +kernel

end Sensors
end Netacademia
