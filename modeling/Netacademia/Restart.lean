/-
# A start of the HC-SR04, statement by statement

`ultraSStart` and `ultraSInit` of `orai_munka/user/hcsr04.c` run one statement at
a time, so that an interrupt can be taken between two of them; `ultraSCbkGpio` is
one step. Beside the statics there is what the statements do to the hardware:
the interrupt type and the status bit of `HC_INPUT`, and the enable of the GPIO
interrupt.

`UltraSensSts = 0` comes after `ETS_GPIO_INTR_ENABLE()`. An interrupt between the
two finds the state of the last measurement: at 2 the handler leaves the status
bit set, at 1 it ends a measurement that another start began.

* `served_iff_timely`: in a run every interrupt is acknowledged, and every completion is
  of two edges of its own start, exactly when no interrupt of `HC_INPUT` is taken
  there, unless `UltraSensSts` was 0 already.
* `run_ultraSStart`: without interrupts the statements make the start of `Sensors`.
-/
import Mathlib.Tactic.IntervalCases
import Netacademia.Sensors

namespace Netacademia
namespace Restart

open Lib Sensors

/-! ### The statements -/

/-- `GPIO_INT_TYPE` of a pin, as far as the driver uses it. -/
inductive IntType
  | disable | posedge | negedge
  deriving DecidableEq, Repr

inductive Stmt
  /-- `ETS_GPIO_INTR_DISABLE()` -/
  | intrDisable
  /-- `GPIO_DIS_OUTPUT(HC_INPUT)` -/
  | disOutput
  /-- `PIN_FUNC_SELECT(mux, FUNC_GPIO<pin>)` -/
  | pinFuncSelect (pin : ℕ)
  /-- `ETS_GPIO_INTR_ATTACH(ultraSCbkGpio, NULL)` -/
  | intrAttach
  /-- `gpio_register_set(...)` with `GPIO_PIN_INTR_DISABLE` -/
  | registerSet
  /-- `GPIO_REG_WRITE(GPIO_STATUS_W1TC_ADDRESS, BIT(HC_INPUT))` -/
  | clearStatus
  /-- `gpio_pin_intr_state_set(GPIO_ID_PIN(HC_INPUT), GPIO_PIN_INTR_POSEDGE)` -/
  | intrStateSet
  /-- `ETS_GPIO_INTR_ENABLE()` -/
  | intrEnable
  /-- `UltraSensSts = 0` -/
  | resetSts
  /-- `GPIO_OUTPUT_SET(HC_OUTPUT, v)` -/
  | outputSet (v : ℕ)
  /-- `os_delay_us(us)` -/
  | delay (us : ℕ)
  deriving DecidableEq, Repr

def ultraSInit : List Stmt :=
  [.intrDisable, .disOutput, .pinFuncSelect 4, .intrAttach, .registerSet, .clearStatus, .intrStateSet,
    .intrEnable, .resetSts]

def ultraSStart : List Stmt :=
  ultraSInit ++ [.pinFuncSelect 13, .outputSet 0, .delay 200, .outputSet 1, .delay 10, .outputSet 0]

structure State where
  hc : Hcsr04
  /-- The interrupt type of `HC_INPUT`. -/
  intType : IntType
  /-- The bit of `HC_INPUT` in `GPIO_STATUS`. -/
  status : Bool
  gpioIntr : Bool
  /-- The statements of `ultraSStart` still to come. -/
  cont : List Stmt
  deriving DecidableEq, Repr

def State.reset : State := ⟨⟨0, 0, 0, 0⟩, .disable, false, false, []⟩

def exec (s : State) : Stmt → State
  | .intrDisable => { s with gpioIntr := false }
  | .registerSet => { s with intType := .disable }
  | .clearStatus => { s with status := false }
  | .intrStateSet => { s with intType := .posedge }
  | .intrEnable => { s with gpioIntr := true }
  | .resetSts => { s with hc := { s.hc with ultraSensSts := 0 } }
  -- the multiplexer, the attached handler, the output and the time
  | .disOutput | .pinFuncSelect _ | .intrAttach | .outputSet _ | .delay _ => s

/-- `ultraSCbkGpio` with its writes to the registers. -/
def ultraSCbkGpio (gpioSts now : UInt32) (s : State) : State :=
  let s' := { s with hc := Sensors.ultraSCbkGpio gpioSts now s.hc }
  if gpioSts &&& hcInputBit ≠ 0 then
    if s.hc.ultraSensSts = 0 then { s' with intType := .negedge, status := false }
    else if s.hc.ultraSensSts = 1 then { s' with intType := .disable, status := false }
    else s'
  else s'

inductive Event
  /-- A call of `ultraSStart`. -/
  | start
  /-- The next statement of the call. -/
  | exec
  /-- The level of `HC_INPUT` changes. -/
  | edge (rising : Bool)
  /-- The GPIO interrupt; the status register, and the time the handler reads. -/
  | gpio (gpioSts now : UInt32)
  deriving DecidableEq, Repr

/-- An edge sets the status bit where it is of the type of the pin. -/
def State.latches (s : State) (rising : Bool) : Bool := s.intType == if rising then .posedge else .negedge

def step (s : State) : Event → Option State
  | .start => if s.cont = [] then some { s with cont := ultraSStart } else none
  | .exec =>
    match s.cont with
    | [] => none
    | c :: cs => some { Restart.exec s c with cont := cs }
  | .edge rising => some { s with status := s.status || s.latches rising }
  | .gpio gpioSts now =>
    -- the status register has the bit of the pin, and any other bits
    if s.gpioIntr = true ∧ (gpioSts &&& hcInputBit ≠ 0 ↔ s.status = true) then some (ultraSCbkGpio gpioSts now s)
    else none

/-! ### Where an edge comes from -/

/-- What happened since the pin interrupt was enabled the last time. -/
structure History where
  /-- The edge in the status bit came since then. -/
  edgeFresh : Bool
  /-- `TimerOffset` is of an edge since then. -/
  offsetFresh : Bool
  /-- `UltraSensSts` at the last `ETS_GPIO_INTR_ENABLE()`. -/
  stsAtEnable : UInt8
  deriving DecidableEq, Repr

def record (g : History) (s : State) : Event → History
  | .start => g
  | .exec =>
    if s.cont.head? = some .intrStateSet then { g with edgeFresh := false, offsetFresh := false }
    else if s.cont.head? = some .intrEnable then { g with stsAtEnable := s.hc.ultraSensSts }
    else g
  | .edge rising => { g with edgeFresh := g.edgeFresh || (!s.status && s.latches rising) }
  | .gpio gpioSts _ =>
    if gpioSts &&& hcInputBit ≠ 0 ∧ s.hc.ultraSensSts = 0 then { g with offsetFresh := g.edgeFresh } else g

def driver : Machine State Event := ⟨.reset, step⟩

def machine : Machine (State × History) Event := driver.history ⟨false, false, 0⟩ record

/-- An interrupt of `HC_INPUT` is acknowledged, and a completion is of two edges
since the pin interrupt was enabled the last time. -/
def Served (s : State × History) : Event → Prop
  | .gpio gpioSts now => gpioSts &&& hcInputBit ≠ 0 →
    (ultraSCbkGpio gpioSts now s.1).status = false ∧
      ((ultraSCbkGpio gpioSts now s.1).hc.posts ≠ s.1.hc.posts → s.2.offsetFresh = true ∧ s.2.edgeFresh = true)
  | _ => True

/-- An interrupt of `HC_INPUT` is not taken between `ETS_GPIO_INTR_ENABLE()` and
`UltraSensSts = 0`, unless `UltraSensSts` was 0 at the former. -/
def Timely (s : State × History) : Event → Prop
  | .gpio gpioSts _ => gpioSts &&& hcInputBit ≠ 0 → s.1.cont.head? = some .resetSts → s.2.stsAtEnable = 0
  | _ => True

instance : ∀ s e, Decidable (Timely s e)
  | _, .gpio _ _ => inferInstanceAs (Decidable (_ → _ → _))
  | _, .start => isTrue trivial
  | _, .exec => isTrue trivial
  | _, .edge _ => isTrue trivial

/-! ### What the handler does -/

section Handler

variable {gpioSts : UInt32} (now : UInt32) {s : State}

theorem ultraSCbkGpio_other (h : gpioSts &&& hcInputBit = 0) : ultraSCbkGpio gpioSts now s = s := by
  have hhc : Sensors.ultraSCbkGpio gpioSts now s.hc = s.hc := ultraSCbkGpio_idle (Or.inl h)
  rw [ultraSCbkGpio, hhc, if_neg (not_not.mpr h)]

theorem ultraSCbkGpio_first (h : gpioSts &&& hcInputBit ≠ 0) (h0 : s.hc.ultraSensSts = 0) :
    ultraSCbkGpio gpioSts now s =
      { s with
        hc := { s.hc with timerOffset := now, ultraSensSts := 1 }
        intType := .negedge
        status := false } := by
  simp only [ultraSCbkGpio, Sensors.ultraSCbkGpio, if_pos h, h0, if_true]
  rfl

theorem ultraSCbkGpio_second (h : gpioSts &&& hcInputBit ≠ 0) (h1 : s.hc.ultraSensSts = 1) :
    ultraSCbkGpio gpioSts now s =
      { s with
        hc :=
          { s.hc with
            hcsr04ResultRaw := now - s.hc.timerOffset
            ultraSensSts := 2
            posts := s.hc.posts + 1 }
        intType := .disable
        status := false } := by
  have h10 : ¬ (1 : UInt8) = 0 := by decide
  simp only [ultraSCbkGpio, Sensors.ultraSCbkGpio, if_pos h, h1, if_neg h10, if_true]
  rfl

/-- In another state the status bit stays set. -/
theorem ultraSCbkGpio_over (h0 : s.hc.ultraSensSts ≠ 0) (h1 : s.hc.ultraSensSts ≠ 1) :
    (ultraSCbkGpio gpioSts now s).status = s.status := by
  simp only [ultraSCbkGpio, if_neg h0, if_neg h1, ite_self]

end Handler

/-! ### Without interrupts -/

/-- The statements one after the other, with no edge and no interrupt between them,
are the start that `Sensors` takes in one step. -/
theorem run_ultraSStart (s : State) (h : s.cont = []) :
    driver.run s (.start :: List.replicate 15 .exec) =
      some { s with hc := Sensors.ultraSInit s.hc, intType := .posedge, status := false, gpioIntr := true } := by
  obtain ⟨hc, intType, status, gpioIntr, cont⟩ := s
  subst h
  rfl

/-! ### The phases of a start -/

/-- A measurement that the interrupt may go on with. -/
structure Running (s : State) (g : History) : Prop where
  edge : s.status = true → g.edgeFresh = true
  offset : s.hc.ultraSensSts = 1 → g.offsetFresh = true
  finished : s.hc.ultraSensSts ≠ 0 → s.hc.ultraSensSts ≠ 1 → s.status = false ∧ s.intType = .disable

/-- Where a start is: at no statement that matters, in `ETS_GPIO_INTR_DISABLE()` and
before `gpio_register_set`, before the clearing of the status, before
`gpio_pin_intr_state_set`, before `ETS_GPIO_INTR_ENABLE()`, before `UltraSensSts = 0`. -/
inductive Phase
  | settled | off | masked | cleared | armed | window
  deriving DecidableEq, Repr

/-- The phase before the `k`-th statement of `ultraSStart`. -/
def phase : ℕ → Phase
  | 0 => .settled
  | 5 => .masked
  | 6 => .cleared
  | 7 => .armed
  | 8 => .window
  | k => if k < 5 then .off else .settled

def Phase.Holds (s : State) (g : History) : Phase → Prop
  | .settled => Running s g
  | .off => s.gpioIntr = false
  | .masked => s.gpioIntr = false ∧ s.intType = .disable
  | .cleared => s.gpioIntr = false ∧ s.intType = .disable ∧ s.status = false
  | .armed => s.gpioIntr = false ∧ g.offsetFresh = false ∧ (s.status = true → g.edgeFresh = true)
  -- `UltraSensSts` is of the last measurement
  | .window => (s.status = true → g.edgeFresh = true) ∧ (g.stsAtEnable = 0 → Running s g) ∧
      (g.stsAtEnable ≠ 0 → s.hc.ultraSensSts ≠ 0 ∧ g.offsetFresh = false)

/-- The statements to come are those from the `k`-th on, in its phase. -/
def Inv (p : State × History) : Prop := ∃ k ≤ 15, p.1.cont = ultraSStart.drop k ∧ (phase k).Holds p.1 p.2

variable {s : State} {g : History}

theorem running_cont (h : Running s g) (cs : List Stmt) : Running { s with cont := cs } g :=
  ⟨h.edge, h.offset, h.finished⟩

/-! ### An edge -/

theorem latches_of_disable (h : s.intType = .disable) (rising : Bool) : s.latches rising = false := by
  rw [State.latches, h]
  cases rising <;> rfl

/-- An edge that the status bit takes is new. -/
theorem fresh_edge (h : s.status = true → g.edgeFresh = true) (rising : Bool) :
    (s.status || s.latches rising) = true → (record g s (.edge rising)).edgeFresh = true := by
  intro hl
  by_cases hs : s.status = true
  · simp [record, h hs]
  · have hs : s.status = false := eq_false_of_ne_true hs
    rw [hs, Bool.false_or] at hl
    simp [record, hs, hl]

theorem running_edge (h : Running s g) (rising : Bool) :
    Running { s with status := s.status || s.latches rising } (record g s (.edge rising)) where
  edge := fresh_edge h.edge rising
  offset := h.offset
  finished h0 h1 := by
    obtain ⟨hs, hd⟩ := h.finished h0 h1
    exact ⟨by rw [hs, latches_of_disable hd]; rfl, hd⟩

theorem holds_edge {ph : Phase} (h : ph.Holds s g) (rising : Bool) :
    ph.Holds { s with status := s.status || s.latches rising } (record g s (.edge rising)) := by
  cases ph with
  | settled => exact running_edge h rising
  | off => exact h
  | masked => exact h
  | cleared =>
    obtain ⟨hoff, hd, hs⟩ := h
    exact ⟨hoff, hd, by rw [hs, latches_of_disable hd]; rfl⟩
  | armed =>
    obtain ⟨hoff, hf, he⟩ := h
    exact ⟨hoff, hf, fresh_edge he rising⟩
  | window =>
    obtain ⟨he, h0, h1⟩ := h
    exact ⟨fresh_edge he rising, fun hz => running_edge (h0 hz) rising, h1⟩

/-! ### An interrupt -/

section Gpio

variable {gpioSts : UInt32} (now : UInt32)

theorem running_gpio (h : Running s g) (hb : gpioSts &&& hcInputBit ≠ 0 ↔ s.status = true) :
    Running (ultraSCbkGpio gpioSts now s) (record g s (.gpio gpioSts now)) := by
  by_cases hin : gpioSts &&& hcInputBit = 0
  · rw [ultraSCbkGpio_other now hin, record, if_neg fun hk => hk.1 hin]
    exact h
  · have hs : s.status = true := hb.mp hin
    by_cases h0 : s.hc.ultraSensSts = 0
    · rw [ultraSCbkGpio_first now hin h0, record, if_pos ⟨hin, h0⟩]
      exact ⟨fun hf => absurd hf Bool.false_ne_true, fun _ => h.edge hs, fun _ h1 => absurd rfl h1⟩
    · by_cases h1 : s.hc.ultraSensSts = 1
      · rw [ultraSCbkGpio_second now hin h1, record, if_neg fun hk => h0 hk.2]
        exact ⟨fun hf => absurd hf Bool.false_ne_true, fun _ => h.offset h1, fun _ _ => ⟨rfl, rfl⟩⟩
      · have hno := (h.finished h0 h1).1
        rw [hs] at hno
        cases hno

theorem served_of_running (h : Running s g) (hb : gpioSts &&& hcInputBit ≠ 0 ↔ s.status = true) :
    Served (s, g) (.gpio gpioSts now) := by
  intro hin
  have hs : s.status = true := hb.mp hin
  by_cases h0 : s.hc.ultraSensSts = 0
  · rw [ultraSCbkGpio_first now hin h0]
    exact ⟨rfl, fun hp => absurd rfl hp⟩
  · by_cases h1 : s.hc.ultraSensSts = 1
    · rw [ultraSCbkGpio_second now hin h1]
      exact ⟨rfl, fun _ => ⟨h.offset h1, h.edge hs⟩⟩
    · have hno := (h.finished h0 h1).1
      rw [hs] at hno
      cases hno

/-- In the state of an earlier start the interrupt stays, or ends that measurement. -/
theorem not_served_of_stale (h : s.hc.ultraSensSts ≠ 0) (hf : g.offsetFresh = false)
    (hin : gpioSts &&& hcInputBit ≠ 0) (hs : s.status = true) : ¬ Served (s, g) (.gpio gpioSts now) := by
  intro hserved
  obtain ⟨hack, hposts⟩ := hserved hin
  by_cases h1 : s.hc.ultraSensSts = 1
  · have hpost : (ultraSCbkGpio gpioSts now s).hc.posts ≠ s.hc.posts := by
      rw [ultraSCbkGpio_second now hin h1]
      exact Nat.succ_ne_self _
    have hfresh := (hposts hpost).1
    rw [hf] at hfresh
    cases hfresh
  · rw [ultraSCbkGpio_over now h h1, hs] at hack
    cases hack

omit now in
/-- An interrupt is taken outside of the statements, or before `UltraSensSts = 0`. -/
theorem taken_cases {ph : Phase} (h : ph.Holds s g) (hon : s.gpioIntr = true) :
    ph = .settled ∨ ph = .window := by
  have hoff : s.gpioIntr ≠ false := ne_false_of_eq_true hon
  cases ph with
  | settled => exact Or.inl rfl
  | off => exact absurd h hoff
  | masked => exact absurd h.1 hoff
  | cleared => exact absurd h.1 hoff
  | armed => exact absurd h.1 hoff
  | window => exact Or.inr rfl

/-- A timely interrupt leaves the phase. -/
theorem holds_gpio {ph : Phase} (h : ph.Holds s g) (hon : s.gpioIntr = true)
    (hb : gpioSts &&& hcInputBit ≠ 0 ↔ s.status = true)
    (ht : gpioSts &&& hcInputBit ≠ 0 → ph = .window → g.stsAtEnable = 0) :
    ph.Holds (ultraSCbkGpio gpioSts now s) (record g s (.gpio gpioSts now)) := by
  rcases taken_cases h hon with rfl | rfl
  · exact running_gpio now h hb
  · by_cases hin : gpioSts &&& hcInputBit = 0
    · rw [ultraSCbkGpio_other now hin, record, if_neg fun hk => hk.1 hin]
      exact h
    · have hz : g.stsAtEnable = 0 := ht hin rfl
      have hrun := running_gpio now (h.2.1 hz) hb
      have hsame : (record g s (.gpio gpioSts now)).stsAtEnable = g.stsAtEnable := by
        rw [record]
        split <;> rfl
      exact ⟨hrun.edge, fun _ => hrun, fun hne => absurd (hsame.trans hz) hne⟩

/-- Within a phase, an interrupt is served where it is timely. -/
theorem served_gpio_iff {ph : Phase} (h : ph.Holds s g) (hon : s.gpioIntr = true)
    (hb : gpioSts &&& hcInputBit ≠ 0 ↔ s.status = true) :
    Served (s, g) (.gpio gpioSts now) ↔ (gpioSts &&& hcInputBit ≠ 0 → ph = .window → g.stsAtEnable = 0) := by
  rcases taken_cases h hon with rfl | rfl
  · exact iff_of_true (served_of_running now h hb) fun _ hw => by cases hw
  · by_cases hz : g.stsAtEnable = 0
    · exact iff_of_true (served_of_running now (h.2.1 hz) hb) fun _ _ => hz
    · obtain ⟨h0, hf⟩ := h.2.2 hz
      constructor
      · intro hserved hin
        exact absurd hserved (not_served_of_stale now h0 hf hin (hb.mp hin))
      · intro ht hin
        exact absurd (ht hin rfl) hz

end Gpio

/-! ### A statement -/

/-- One statement leads to the next phase. -/
theorem holds_exec {k : ℕ} (hk : k < 15) (hcont : s.cont = ultraSStart.drop k) (h : (phase k).Holds s g)
    {c : Stmt} {cs : List Stmt} (hc : s.cont = c :: cs) :
    (phase (k + 1)).Holds { exec s c with cont := cs } (record g s .exec) := by
  obtain ⟨hc', intType, status, gpioIntr, cont⟩ := s
  subst hcont
  interval_cases k <;> obtain ⟨rfl, rfl⟩ := List.cons.inj hc
  case «0» => exact rfl
  case «4» => exact ⟨h, rfl⟩
  case «5» => exact ⟨h.1, h.2, rfl⟩
  case «6» =>
    obtain ⟨hoff, -, hs⟩ := h
    exact ⟨hoff, rfl, fun ht => absurd (hs.symm.trans ht) Bool.false_ne_true⟩
  case «7» =>
    obtain ⟨-, hf, he⟩ := h
    refine ⟨he, fun hz => ⟨he, fun h1 => ?_, fun h0 _ => absurd hz h0⟩, fun hz => ⟨hz, hf⟩⟩
    have h01 : (0 : UInt8) = 1 := (show hc'.ultraSensSts = 0 from hz).symm.trans h1
    exact absurd h01 (by decide)
  case «8» =>
    refine ⟨h.1, fun h1 => ?_, fun h0 _ => absurd rfl h0⟩
    have h01 : (0 : UInt8) = 1 := h1
    exact absurd h01 (by decide)
  -- the other statements do not touch what the phases say
  case «1» | «2» | «3» => exact h
  all_goals exact running_cont (s := ⟨hc', intType, status, gpioIntr, _⟩) h _

/-! ### Runs -/

theorem head_window {k : ℕ} (hk : k ≤ 15) : (ultraSStart.drop k).head? = some .resetSts ↔ phase k = .window := by
  interval_cases k <;> decide

theorem inv_init : Inv machine.init :=
  ⟨15, Nat.le_refl _, rfl, fun h => absurd h Bool.false_ne_true, fun h => absurd h (by decide),
    fun h => absurd rfl h⟩

/-- The handler does not touch the start that it interrupts. -/
theorem ultraSCbkGpio_cont (gpioSts now : UInt32) (s : State) : (ultraSCbkGpio gpioSts now s).cont = s.cont := by
  unfold ultraSCbkGpio
  split
  · split
    · rfl
    · split <;> rfl
  · rfl

/-- The statements that are left after one. -/
theorem drop_succ_of_cons {k : ℕ} {c : Stmt} {cs : List Stmt} (h : ultraSStart.drop k = c :: cs) :
    k < 15 ∧ cs = ultraSStart.drop (k + 1) := by
  have hlt : k < 15 := by
    by_contra hge
    have hnil : ultraSStart.drop k = [] := List.drop_eq_nil_iff.mpr (Nat.le_of_not_lt hge)
    rw [hnil] at h
    cases h
  have hcs : cs = ultraSStart.drop (k + 1) := by
    rw [← List.tail_drop, h, List.tail_cons]
  exact ⟨hlt, hcs⟩

theorem inv_step : machine.Preserves Inv Timely := by
  rintro ⟨s, g⟩ e ⟨s', g'⟩ ⟨k, hk, hcont, hph⟩ ht hs
  obtain ⟨hs, rfl⟩ := Machine.history_step.mp hs
  cases e with
  | start =>
    obtain ⟨hnil, hs'⟩ := Option.ite_none_right_eq_some.mp hs
    obtain rfl := Option.some.inj hs'
    -- the statements of the last start are over
    have hk : k = 15 := by
      have hlen := List.drop_eq_nil_iff.mp (hcont.symm.trans hnil)
      exact Nat.le_antisymm hk hlen
    subst hk
    exact ⟨0, Nat.zero_le _, rfl, running_cont hph _⟩
  | exec =>
    rcases hc : s.cont with _ | ⟨c, cs⟩
    · simp only [driver, step, hc] at hs
      cases hs
    · simp only [driver, step, hc, Option.some.injEq] at hs
      obtain ⟨hlt, hcs⟩ := drop_succ_of_cons (hcont.symm.trans hc)
      exact ⟨k + 1, hlt, hs ▸ hcs, hs ▸ holds_exec hlt hcont hph hc⟩
  | edge rising =>
    obtain rfl := Option.some.inj hs
    exact ⟨k, hk, hcont, holds_edge hph rising⟩
  | gpio gpioSts now =>
    obtain ⟨⟨hon, hb⟩, hs'⟩ := Option.ite_none_right_eq_some.mp hs
    obtain rfl := Option.some.inj hs'
    refine ⟨k, hk, (ultraSCbkGpio_cont gpioSts now s).trans hcont, holds_gpio now hph hon hb fun hin hw => ht hin ?_⟩
    rw [hcont]
    exact (head_window hk).mpr hw

/-- Within the phases, what is timely is what is served. -/
theorem served_step_iff (s s' : State × History) (e : Event) (h : Inv s) (hs : machine.step s e = some s') :
    Served s e ↔ Timely s e := by
  obtain ⟨k, hk, hcont, hph⟩ := h
  obtain ⟨s, g⟩ := s
  cases e with
  | gpio gpioSts now =>
    obtain ⟨hs, -⟩ := Machine.history_step.mp hs
    obtain ⟨⟨hon, hb⟩, -⟩ := Option.ite_none_right_eq_some.mp hs
    have hwindow : s.cont.head? = some .resetSts ↔ phase k = .window := by
      rw [hcont]
      exact head_window hk
    rw [served_gpio_iff now hph hon hb, Timely, hwindow]
  | _ => exact Iff.rfl

/-- **When the interrupts are served.** In a run of starts, statements, edges and
interrupts, every interrupt of `HC_INPUT` is acknowledged, and every completion is
of two edges since the pin interrupt was enabled the last time, if and only if no
interrupt of `HC_INPUT` is taken between `ETS_GPIO_INTR_ENABLE()` and
`UltraSensSts = 0` with an `UltraSensSts` that was not 0 at the former. -/
theorem served_iff_timely (es : List Event) :
    machine.Along Served machine.init es ↔ machine.Along Timely machine.init es :=
  machine.along_iff_along inv_step (fun s e s' h hs => served_step_iff s s' e h hs)
    inv_init es

/-- One measurement from its start to its end. -/
def measure : List Event :=
  .start :: List.replicate 15 .exec ++ [.edge true, .gpio hcInputBit 100, .edge false, .gpio hcInputBit 680]

/-- After a measurement, an echo between the two statements of the next start: the
interrupt is not acknowledged. -/
theorem echo_not_acknowledged : ¬ ∀ es, machine.Along Served machine.init es := by
  intro h
  have hrun := (machine.along_iff_along inv_step (fun s e s' h hs => served_step_iff s s' e h hs) inv_init _).mp
    (h (measure ++ .start :: List.replicate 8 .exec ++ [.edge true, .gpio hcInputBit 900]))
  revert hrun
  decide +kernel

end Restart
end Netacademia
