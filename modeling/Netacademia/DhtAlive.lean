/-
# When the DHT driver stays alive

A measurement ends with an event for mainTask: `COMPL` is published, `ERR`
starts the next one. The event carries only `&DhtHandle`, and `dhtGpioCbk`
writes `MEAS` into its state before it looks at the pin. After a time-out
`dhtTimerCbk` has disarmed the timer and enabled the interrupt again, so an
edge before mainTask reads the state turns the `ERR` into nothing: the timer
stays disarmed and no event is left.

* `alive_along`: the driver never goes dead in a run where, from the disarming
  of the timer until mainTask has read the state, every GPIO interrupt ends a
  capture.
* `dead_of_edge`: an interrupt that ends no capture, in a state not yet read by
  mainTask, kills the driver; `dead_after_edge` is the run from the start.
-/
import Netacademia.Firmware

namespace Netacademia
namespace DhtAlive

open Lib Dht Firmware

/-- Whether the measurement begun by the last `dhtStart` was ended by mainTask
in its `COMPL` branch. -/
def ended (en : Bool) (s : Fw) : Event → Bool
  | .exec _ =>
    match s.cont with
    | .setPrep :: _ => false
    | .switchState :: _ => en || s.board.dhtHandle.state == .compl
    | _ => en
  | _ => en

/-- The firmware with the end of its measurement. -/
def measured : Machine (Fw × Bool) Event := firmware.history false ended

/-- Not dead: where no task runs and no event is queued, the timer is armed or
the measurement was published. -/
def NotDead (s : Fw × Bool) : Prop :=
  s.1.cont = [] → s.1.board.mainTaskQ = [] → s.1.board.dhtTimer = true ∨ s.2 = true

/-- The measurement is over and mainTask has not read the state yet: the timer
is disarmed, and the running task neither restarts it nor sets `ERR`. -/
def Unread (s : Fw × Bool) : Prop :=
  s.1.board.dhtTimer = false ∧ s.2 = false ∧ .timerArm ∉ s.1.cont ∧ .setErr ∉ s.1.cont

/-- While the state is unread, every GPIO interrupt ends a capture. -/
def KeepsState (s : Fw × Bool) : Event → Prop
  | .gpio gpioStatus _ _ => Unread s → lastEdge gpioStatus s.1.board = true
  | _ => True

instance : DecidablePred NotDead := fun s =>
  inferInstanceAs (Decidable (s.1.cont = [] → s.1.board.mainTaskQ = [] → _))

instance : DecidablePred Unread := fun s => inferInstanceAs (Decidable (s.1.board.dhtTimer = false ∧ _))

instance : ∀ s e, Decidable (KeepsState s e)
  | _, .gpio _ _ _ => instDecidableForall
  | _, .tick | _, .dispatch | _, .socketStarter | _, .connCbk | _, .reconnCbk | _, .recvCbk _ _ | _, .exec _ =>
    isTrue trivial

/-! ### The running task -/

/-- What the tasks keep in order: `setErr` follows the disarming of the timer, a
post follows `setErr`, and an arming of the timer follows `setPrep`. -/
def Ordered : List Stmt → Prop
  | [] => True
  | c :: rest =>
    (c = .timerDisarm → .setErr ∈ rest) ∧ (c = .setErr → .post ∈ rest) ∧
      (c = .setPrep → .timerArm ∈ rest) ∧ Ordered rest

instance decidableOrdered : DecidablePred Ordered
  | [] => isTrue trivial
  | _ :: rest =>
    have := decidableOrdered rest
    inferInstanceAs (Decidable (_ ∧ _ ∧ _ ∧ Ordered rest))

theorem ordered_append {front rest : List Stmt} (hf : Ordered front) (hr : Ordered rest) :
    Ordered (front ++ rest) := by
  induction front with
  | nil => exact hr
  | cons c front ih =>
    obtain ⟨h1, h2, h3, h4⟩ := hf
    exact ⟨fun h => List.mem_append_left _ (h1 h), fun h => List.mem_append_left _ (h2 h),
      fun h => List.mem_append_left _ (h3 h), ih h4⟩

theorem ordered_exec (now : UInt32) (s : Fw) (c : Stmt) : Ordered (exec now s c).2 := by
  cases c with
  | ifTimeout => simp only [exec]; split <;> decide
  | switchState => simp only [exec]; cases s.board.dhtHandle.state <;> decide
  | ifAnswer pdata stack =>
    simp only [exec]
    cases DaemonHandle.answer pdata stack <;> decide
  | _ => trivial

theorem ordered_task {b b' : Board} {e : Event} {task : List Stmt} (h : taskOf b e = some (b', task)) :
    Ordered task := by
  rcases taskOf_cases h with ⟨-, -, -, rfl⟩ | ⟨p, q, -, -, -, rfl⟩ | ⟨-, rfl | rfl | ⟨_, _, rfl⟩⟩
  · decide
  · cases p <;> decide
  · decide
  · decide
  · simp [Ordered]

/-! ### The invariant -/

/-- Why the driver is not dead: the timer is armed, or the measurement was
published, or the running task restarts it or sets `ERR`, or the state says
`ERR` or `COMPL` and mainTask will read it. -/
def Alive (b : Board) (en : Bool) (cont : List Stmt) : Prop :=
  b.dhtTimer = true ∨ en = true ∨ .timerArm ∈ cont ∨ .setErr ∈ cont ∨
    ((b.dhtHandle.state = .err ∨ b.dhtHandle.state = .compl) ∧
      (b.mainTaskQ ≠ [] ∨ .post ∈ cont ∨ .switchState ∈ cont))

section Reasons

variable {b : Board} {en : Bool} {cont : List Stmt}

theorem alive_of_armed (h : b.dhtTimer = true) : Alive b en cont := Or.inl h

theorem alive_of_ended (h : en = true) : Alive b en cont := Or.inr (Or.inl h)

theorem alive_of_timerArm (h : .timerArm ∈ cont) : Alive b en cont := Or.inr (Or.inr (Or.inl h))

theorem alive_of_setErr (h : .setErr ∈ cont) : Alive b en cont := Or.inr (Or.inr (Or.inr (Or.inl h)))

theorem alive_of_state (hs : b.dhtHandle.state = .err ∨ b.dhtHandle.state = .compl)
    (hr : b.mainTaskQ ≠ [] ∨ .post ∈ cont ∨ .switchState ∈ cont) : Alive b en cont :=
  Or.inr (Or.inr (Or.inr (Or.inr ⟨hs, hr⟩)))

end Reasons

structure Inv (s : Fw × Bool) : Prop where
  alive : Alive s.1.board s.2 s.1.cont
  ordered : Ordered s.1.cont
  /-- No event carries a null pointer. -/
  queue : ∀ p ∈ s.1.board.mainTaskQ, p = .dhtHandle

theorem inv_init : Inv measured.init where
  alive := alive_of_timerArm (by decide)
  ordered := by decide
  queue := by simp [measured, Machine.history, firmware, Board.reset]

theorem inv_notDead (s : Fw × Bool) (h : Inv s) : NotDead s := by
  intro hc hq
  rcases h.alive with ha | ha | ha | ha | ⟨-, ha⟩
  · exact Or.inl ha
  · exact Or.inr ha
  · simp [hc] at ha
  · simp [hc] at ha
  · simp [hc, hq] at ha

/-- A statement that has no part in the reasons, and a board that differs in none
of them. -/
theorem alive_rest {b b' : Board} {en : Bool} {c : Stmt} {rest : List Stmt} (front : List Stmt)
    (h : Alive b en (c :: rest)) (hc : c ∉ [Stmt.timerArm, .setErr, .post, .switchState])
    (ht : b'.dhtTimer = b.dhtTimer) (hs : b'.dhtHandle.state = b.dhtHandle.state)
    (hq : b'.mainTaskQ = b.mainTaskQ) : Alive b' en (front ++ rest) := by
  have hmem : ∀ {d : Stmt}, d ∈ c :: rest → c ≠ d → d ∈ front ++ rest := fun hd hne =>
    List.mem_append_right _ ((List.mem_cons.mp hd).resolve_left (Ne.symm hne))
  simp only [List.mem_cons, List.not_mem_nil, or_false, not_or] at hc
  obtain ⟨h1, h2, h3, h4⟩ := hc
  rcases h with h | h | h | h | ⟨he, h | h | h⟩
  · exact alive_of_armed (ht.trans h)
  · exact alive_of_ended h
  · exact alive_of_timerArm (hmem h h1)
  · exact alive_of_setErr (hmem h h2)
  · exact alive_of_state (hs ▸ he) (Or.inl (hq ▸ h))
  · exact alive_of_state (hs ▸ he) (Or.inr (Or.inl (hmem h h3)))
  · exact alive_of_state (hs ▸ he) (Or.inr (Or.inr (hmem h h4)))

/-! ### The steps -/

/-- The interrupt handler. -/
theorem inv_gpio {s : Fw × Bool} (h : Inv s) (gs n n' : UInt32) (hk : KeepsState s (.gpio gs n n')) :
    Inv ({ s.1 with board := dhtGpioCbk gs n n' s.1.board }, s.2) := by
  cases hl : lastEdge gs s.1.board with
  | true =>
    rw [dhtGpioCbk_of_last _ _ _ _ hl]
    have hst := finish_state (record n n' (s.1.board.setState .meas))
    have hne := finish_mainTaskQ_ne (record n n' (s.1.board.setState .meas))
    have hqueue : ∀ p ∈ (finish (record n n' (s.1.board.setState .meas))).mainTaskQ, p = .dhtHandle :=
      finish_queue h.queue
    generalize finish (record n n' (s.1.board.setState .meas)) = b at hst hne hqueue ⊢
    exact ⟨alive_of_state (Or.inr hst) (Or.inl hne), h.ordered, hqueue⟩
  | false =>
    obtain ⟨-, ht, hq⟩ := dhtGpioCbk_of_not_last s.1.board gs n n' hl
    -- the state is lost, so one of the other reasons must hold
    have hnot : ¬ Unread s := fun hu => by simp [hk hu] at hl
    refine ⟨?_, h.ordered, by simpa only [hq] using h.queue⟩
    unfold Alive
    simp only [ht]
    by_contra hn
    simp only [not_or, Bool.not_eq_true] at hn
    exact hnot ⟨hn.1, hn.2.1, hn.2.2.1, hn.2.2.2.1⟩

/-- The begin of a task. -/
theorem inv_begin {s : Fw × Bool} (h : Inv s) {e : Event} {b : Board} {task : List Stmt}
    (hc : s.1.cont = []) (ht : taskOf s.1.board e = some (b, task)) :
    Inv ({ s.1 with board := b, cont := task }, s.2) := by
  have hord := ordered_task ht
  have halive := h.alive
  simp only [Alive, hc, List.not_mem_nil, false_or, or_false] at halive
  rcases taskOf_cases ht with ⟨-, harm, rfl, rfl⟩ | ⟨p, q, -, hq, rfl, rfl⟩ | ⟨rfl, -⟩
  · exact ⟨alive_of_armed harm, hord, h.queue⟩
  · -- the event leaves the queue, and `switchState` is what is left to do
    obtain rfl : p = .dhtHandle := h.queue p (by simp [hq])
    refine ⟨?_, hord, fun r hr => h.queue r (by simp [hq, hr])⟩
    rcases halive with ha | ha | ⟨ha, -⟩
    · exact alive_of_armed ha
    · exact alive_of_ended ha
    · exact alive_of_state ha (Or.inr (Or.inr (List.mem_singleton.mpr rfl)))
  · refine ⟨?_, hord, h.queue⟩
    rcases halive with ha | ha | ⟨ha, hq⟩
    · exact alive_of_armed ha
    · exact alive_of_ended ha
    · exact alive_of_state ha (Or.inl hq)

/-- A statement of the running task. -/
theorem inv_exec {s : Fw × Bool} (h : Inv s) {now : UInt32} {c : Stmt} {rest : List Stmt}
    (hc : s.1.cont = c :: rest) :
    Inv ({ (exec now s.1 c).1 with cont := (exec now s.1 c).2 ++ rest }, ended s.2 s.1 (.exec now)) := by
  obtain ⟨hd, he, hp, hr⟩ : Ordered (c :: rest) := hc ▸ h.ordered
  have hord := ordered_append (ordered_exec now s.1 c) hr
  have halive : Alive s.1.board s.2 (c :: rest) := hc ▸ h.alive
  simp only [ended, hc]
  cases c with
  | timerDisarm =>
    exact ⟨alive_of_setErr (List.mem_append_right _ (hd rfl)), hord, h.queue⟩
  | setErr =>
    have hpost := List.mem_append_right (exec now s.1 .setErr).2 (he rfl)
    exact ⟨alive_of_state (Or.inl rfl) (Or.inr (Or.inl hpost)), hord, h.queue⟩
  | setPrep =>
    exact ⟨alive_of_timerArm (List.mem_append_right _ (hp rfl)), hord, h.queue⟩
  | timerArm => exact ⟨alive_of_armed rfl, hord, h.queue⟩
  | post =>
    refine ⟨?_, hord, post_queue h.queue⟩
    simp only [Alive, List.mem_cons, reduceCtorEq, false_or] at halive
    rcases halive with ha | ha | ha | ha | ⟨ha, -⟩
    · exact alive_of_armed ((post_dhtTimer _).trans ha)
    · exact alive_of_ended ha
    · exact alive_of_timerArm ha
    · exact alive_of_setErr ha
    · refine alive_of_state ?_ (Or.inl (post_mainTaskQ_ne _))
      simp only [exec, post_dhtHandle]
      exact ha
  | switchState =>
    refine ⟨?_, hord, h.queue⟩
    simp only [exec]
    cases hst : s.1.board.dhtHandle.state with
    | err => exact alive_of_timerArm (List.mem_append_left _ (by decide))
    | compl => exact alive_of_ended (by simp)
    | _ =>
      -- the `default` case: the state was not among the reasons
      simp only [Alive, hst, List.mem_cons, reduceCtorEq, false_or, false_and, or_false] at halive
      rcases halive with ha | ha | ha | ha
      · exact alive_of_armed ha
      · exact alive_of_ended (by simp [ha])
      · exact alive_of_timerArm (List.mem_append_right _ ha)
      · exact alive_of_setErr (List.mem_append_right _ ha)
  | _ => exact ⟨alive_rest _ halive (by simp) rfl rfl rfl, hord, h.queue⟩

theorem inv_step : measured.Preserves Inv KeepsState := by
  rintro s e ⟨fw', en'⟩ h hk hs
  obtain ⟨hs, rfl⟩ := Machine.history_step.mp hs
  rcases step_cases hs with ⟨gs, n, n', rfl, -, rfl⟩ | ⟨b, task, ht, hc, rfl⟩ | ⟨now, c, rest, rfl, hc, rfl⟩
  · exact inv_gpio h gs n n' hk
  · have hen : ended s.2 s.1 e = s.2 := by
      cases e with
      | exec now => cases ht
      | _ => rfl
    rw [hen]
    exact inv_begin h hc ht
  · exact inv_exec h hc

/-- **The driver stays alive** in every run whose GPIO interrupts, while the
state is unread, end a capture. -/
theorem alive_along (es : List Event) (hk : measured.Along KeepsState measured.init es) :
    measured.Throughout NotDead measured.init es :=
  (measured.throughout_of_along inv_step inv_init hk).mono _ inv_notDead

/-- An interrupt that ends no capture, while no task runs and the state is unread,
kills the driver: the event in the queue starts nothing. -/
theorem dead_of_edge {s : Fw × Bool} (hc : s.1.cont = []) (hu : Unread s) (hi : s.1.board.gpioIntr = true)
    (hq : s.1.board.mainTaskQ = [.dhtHandle]) {gs n n' : UInt32} (hl : lastEdge gs s.1.board = false) :
    ¬ measured.Throughout NotDead s [.gpio gs n n', .dispatch, .exec 0] := by
  obtain ⟨⟨b, sts, pb, cont⟩, en⟩ := s
  obtain ⟨ht, hen, -, -⟩ := hu
  simp only at hc hi hq hl ht hen
  subst hc hen
  obtain ⟨hst, htim, hmq⟩ := dhtGpioCbk_of_not_last b gs n n' hl
  rw [ht] at htim
  rw [hq] at hmq
  have hstate : (dhtGpioCbk gs n n' b).dhtHandle.state = .meas := by rw [hst]
  -- the handler, the dispatch and the `switch`
  have h1 : measured.step ((⟨b, sts, pb, []⟩ : Fw), false) (.gpio gs n n') =
      some (⟨dhtGpioCbk gs n n' b, sts, pb, []⟩, false) := by
    rw [measured, Machine.history_step]
    exact ⟨by simp [firmware, step, hi], rfl⟩
  generalize dhtGpioCbk gs n n' b = b1 at htim hmq hstate h1
  have h2 : measured.step (⟨b1, sts, pb, []⟩, false) .dispatch =
      some (⟨{ b1 with mainTaskQ := [] }, sts, pb, [.switchState]⟩, false) := by
    rw [measured, Machine.history_step]
    exact ⟨by simp [firmware, step, taskOf, hmq, mainTask], rfl⟩
  have h3 : measured.step (⟨{ b1 with mainTaskQ := [] }, sts, pb, [.switchState]⟩, false) (.exec 0) =
      some (⟨{ b1 with mainTaskQ := [] }, sts, pb, []⟩, false) := by
    rw [measured, Machine.history_step]
    exact ⟨by simp [firmware, step, exec, hstate, mainTaskCase], by simp [ended, hstate]⟩
  intro hT
  rcases (((hT.2 _ h1).2 _ h2).2 _ h3) rfl rfl with h | h
  · rw [show b1.dhtTimer = true from h] at htim
    cases htim
  · cases h

/-- Ten ticks of a measurement. -/
def ticks : List Event := (List.replicate 10 (.tick :: execs 0 14)).flatten

/-- The boot measurement without a sensor: eleven ticks, the last one times out. -/
def noSensor : List Event := execs 0 9 ++ ticks ++ .tick :: execs 0 17

/-- A time-out with 41 edges of a capture before it, and the last one after its `ERR`. -/
def lateEdge : List Event :=
  List.replicate 41 (.gpio dhtPinBit 50 0) ++ .tick :: execs 0 6 ++ .gpio dhtPinBit 50 0 :: execs 0 11

/-- The theorem on a time-out that is read at once and starts the next measurement, which
ends in `COMPL` while the state is still unread. -/
theorem alive_along_retry :
    measured.Throughout NotDead measured.init
      (noSensor ++ .dispatch :: execs 0 9 ++ ticks ++ lateEdge ++ .dispatch :: execs 0 4) :=
  alive_along _ (by decide +kernel)

/-- One edge between the time-out and the dispatch, and the driver is dead. -/
theorem dead_after_edge :
    ¬ measured.Throughout NotDead measured.init
      (noSensor ++ [.gpio dhtPinBit 0 0, .dispatch, .exec 0]) := by
  decide +kernel

end DhtAlive
end Netacademia
