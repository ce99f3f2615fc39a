/-
# The time-out of the DHT driver

`dhtStart`, `dhtTimerCbk`, `dhtGpioCbk` and mainTask of `orai_munka/user`, each
one step, in runs of starts, ticks of `DhtTimer`, GPIO interrupts and events of
mainTask. `DhtTimer` is periodic: it ticks until the time-out or the end of a
capture disarms it, and `TimeoutCnt` counts its ticks since the last start.

* `timeout_discipline`: there are at most 11 ticks after a start, so the counter
  does not wrap, and what disarms the timer posts an event to mainTask.
* `stores_in_range`: with the routines as steps, an interrupt that comes while it is
  enabled stores inside of `DhtResult`.
-/
import Netacademia.DhtCalls

namespace Netacademia
namespace DhtTimeout

open Lib Dht DhtCalls
open Firmware (execs)

/-- `mainTask(e)`; that a reading is formatted and sent does not touch the board. -/
def mainTask (b : Board) : Par → Board
  | .null => b
  | .dhtHandle => if b.dhtHandle.state = .err then dhtStart b else b

/-- The firmware runs the cases of mainTask to the same board. -/
theorem run_mainTask (now : UInt32) (b : Board) (sts : UInt8) (pb : List Char) (rest : List Firmware.Stmt)
    (p : Par) :
    ∃ n sts' pb', Firmware.firmware.run ⟨b, sts, pb, Firmware.mainTask p ++ rest⟩ (execs now n) =
      some ⟨mainTask b p, sts', pb', rest⟩ := by
  cases p with
  | null => exact ⟨0, sts, pb, rfl⟩
  | dhtHandle =>
    -- the `switch`
    have hswitch : ∀ n, Firmware.firmware.run ⟨b, sts, pb, Firmware.mainTask .dhtHandle ++ rest⟩
        (execs now (n + 1)) =
        Firmware.firmware.run ⟨b, sts, pb, Firmware.mainTaskCase b.dhtHandle.state ++ rest⟩ (execs now n) :=
      fun _ => rfl
    cases hst : b.dhtHandle.state with
    | err =>
      refine ⟨8 + 1, sts, pb, ?_⟩
      rw [hswitch, hst, mainTask, if_pos hst]
      exact run_dhtStart now b sts pb rest
    | compl =>
      rw [mainTask, if_neg (by rw [hst]; decide)]
      rw [hst] at hswitch
      exact ⟨3 + 1, _, _, (hswitch 3).trans rfl⟩
    | idle | prep | meas =>
      rw [mainTask, if_neg (by rw [hst]; decide)]
      refine ⟨0 + 1, sts, pb, ?_⟩
      rw [hswitch, hst]
      rfl

inductive Event
  | dhtStart
  /-- `DhtTimer` expires. -/
  | tick (now : UInt32)
  /-- The GPIO interrupt, with the status register and the two times its handler reads. -/
  | gpio (gpioStatus now now' : UInt32)
  /-- mainTask takes the first event of its queue. -/
  | dispatch
  deriving DecidableEq, Repr

def step (b : Board) : Event → Option Board
  | .dhtStart => some (dhtStart b)
  | .tick now => if b.dhtTimer then some (dhtTimerCbk now b) else none
  -- at any time: that the interrupt may be disabled does not matter to the timer
  | .gpio gpioStatus now now' => some (dhtGpioCbk gpioStatus now now' b)
  | .dispatch =>
    match b.mainTaskQ with
    | [] => none
    | e :: q => some (mainTask { b with mainTaskQ := q } e)

def driver : Machine Board Event := ⟨.reset, step⟩

/-- The ticks since the last call of `dhtStart`, which mainTask makes on an error. -/
def ticks (n : ℕ) (b : Board) : Event → ℕ
  | .dhtStart => 0
  | .tick _ => n + 1
  | .gpio _ _ _ => n
  | .dispatch => if b.mainTaskQ.head? = some .dhtHandle ∧ b.dhtHandle.state = .err then 0 else n

/-- The driver with the ticks since the last start. -/
def machine : Machine (Board × ℕ) Event := driver.history 0 ticks

/-- The events that a step posts: those it leaves in a queue that was empty. There
is room in it for two, and no handler posts more. -/
def posted (b : Board) : Event → List Par
  | .tick now => (dhtTimerCbk now { b with mainTaskQ := [] }).mainTaskQ
  | .gpio gpioStatus now now' => (dhtGpioCbk gpioStatus now now' { b with mainTaskQ := [] }).mainTaskQ
  | _ => []

/-- A queue of mainTask after some posts, each of them refused when it is full. -/
def queued (q ps : List Par) : List Par := (q ++ ps).take MAIN_TASK_Q_SIZE

/-- The counter is at most 10 while the timer is armed and at most 11 at all, it is the
number of ticks since the last start, and these are at most 11. -/
def Bounded (s : Board × ℕ) : Prop :=
  (s.1.dhtTimer = true → s.1.dhtHandle.timeoutCnt ≤ 10) ∧ s.1.dhtHandle.timeoutCnt ≤ 11 ∧
    s.1.dhtHandle.timeoutCnt.toNat = s.2 ∧ s.2 ≤ 11

/-- A step that disarms the timer posts an event, which the queue takes if it has room. -/
def PostsAtDisarm (s : Board × ℕ) (e : Event) : Prop :=
  ∀ s', machine.step s e = some s' → s.1.dhtTimer = true → s'.1.dhtTimer = false →
    posted s.1 e ≠ [] ∧ s'.1.mainTaskQ = queued s.1.mainTaskQ (posted s.1 e)

/-! ### Posts -/

theorem length_queued (q ps : List Par) : (queued q ps).length ≤ MAIN_TASK_Q_SIZE := by
  rw [queued, List.length_take]
  exact Nat.min_le_left _ _

/-- Posts after posts find the queue as these left it. -/
theorem queued_queued (q ps ps' : List Par) : queued (queued q ps) ps' = queued q (ps ++ ps') := by
  have htake : ∀ l l' : List Par, (l.take MAIN_TASK_Q_SIZE ++ l').take MAIN_TASK_Q_SIZE =
      (l ++ l').take MAIN_TASK_Q_SIZE := by
    intro l l'
    have hlen : MAIN_TASK_Q_SIZE - min MAIN_TASK_Q_SIZE l.length = MAIN_TASK_Q_SIZE - l.length := by
      omega
    rw [List.take_append, List.take_append, List.take_take, Nat.min_self, List.length_take, hlen]
  rw [queued, queued, queued, htake, List.append_assoc]

theorem post_mainTaskQ {b : Board} (h : b.mainTaskQ.length ≤ MAIN_TASK_Q_SIZE) :
    b.post.mainTaskQ = queued b.mainTaskQ [.dhtHandle] := by
  unfold Board.post queued
  split
  · have hle : (b.mainTaskQ ++ [Par.dhtHandle]).length ≤ MAIN_TASK_Q_SIZE := by
      rw [List.length_append, List.length_singleton]
      omega
    exact (List.take_of_length_le hle).symm
  · have heq : b.mainTaskQ.length = MAIN_TASK_Q_SIZE := Nat.le_antisymm h (not_lt.mp ‹_›)
    rw [← heq, List.take_left]

/-- The events at the end of a capture: one more if the checksum is wrong. -/
def finishPosts (b : Board) : List Par :=
  if parityOk b.dhtResult then [.dhtHandle] else [.dhtHandle, .dhtHandle]

theorem finish_mainTaskQ {b : Board} (h : b.mainTaskQ.length ≤ MAIN_TASK_Q_SIZE) :
    (finish b).mainTaskQ = queued b.mainTaskQ (finishPosts b) := by
  -- the event that each capture ends with
  have hend : ∀ c : Board, c.mainTaskQ.length ≤ MAIN_TASK_Q_SIZE →
      ({ c with dhtTimer := false }.setState .compl).post.mainTaskQ = queued c.mainTaskQ [.dhtHandle] :=
    fun c hc => post_mainTaskQ (b := { c with dhtTimer := false }.setState .compl) hc
  rw [finish, finishPosts]
  by_cases hp : parityOk b.dhtResult = true
  · have hq : (dhtProcess { b with gpioIntr := false }).mainTaskQ = b.mainTaskQ := by
      simp [dhtProcess, hp]
    rw [hend _ (le_of_eq_of_le (congrArg List.length hq) h), hq, if_pos hp]
  · have hq : (dhtProcess { b with gpioIntr := false }).mainTaskQ = queued b.mainTaskQ [.dhtHandle] := by
      simp only [dhtProcess, if_neg hp]
      exact post_mainTaskQ (b := { b with gpioIntr := false }.setState .err) h
    rw [hend _ (le_of_eq_of_le (congrArg List.length hq) (length_queued _ _)), hq, queued_queued, if_neg hp]
    rfl

/-! ### What the routines leave -/

theorem finish_timeoutCnt (b : Board) : (finish b).dhtHandle.timeoutCnt = b.dhtHandle.timeoutCnt := by
  simp only [finish, post_dhtHandle, Board.setState, dhtProcess]
  split <;> simp

theorem finish_dhtTimer (b : Board) : (finish b).dhtTimer = false := by
  simp [finish]

/-- `DhtHandle.TimeoutCnt++` -/
def counted (b : Board) : Board :=
  { b with dhtHandle := { b.dhtHandle with timeoutCnt := b.dhtHandle.timeoutCnt + 1 } }

/-- A tick that leaves the timer armed. -/
theorem dhtTimerCbk_of_le (now : UInt32) {b : Board} (h : ¬ DHT_TIMEOUT < b.dhtHandle.timeoutCnt + 1) :
    dhtTimerCbk now b = dhtGpioCbkSetup now (counted b) := by
  simp only [dhtTimerCbk, if_neg h, counted]

/-- The last tick. -/
theorem dhtTimerCbk_of_lt (now : UInt32) {b : Board} (h : DHT_TIMEOUT < b.dhtHandle.timeoutCnt + 1) :
    dhtTimerCbk now b = dhtGpioCbkSetup now (timeout (counted b)) := by
  simp only [dhtTimerCbk, if_pos h, counted]

theorem timeout_timeoutCnt (b : Board) : (timeout b).dhtHandle.timeoutCnt = b.dhtHandle.timeoutCnt := by
  simp [timeout, Board.setState]

theorem timeout_dhtTimer (b : Board) : (timeout b).dhtTimer = false := by
  simp [timeout]

theorem timeout_mainTaskQ {b : Board} (h : b.mainTaskQ.length ≤ MAIN_TASK_Q_SIZE) :
    (timeout b).mainTaskQ = queued b.mainTaskQ [.dhtHandle] :=
  post_mainTaskQ (b := ({ b with dhtTimer := false } : Board).setState .err) h

/-! ### The invariant -/

structure Inv (s : Board × ℕ) : Prop where
  cnt : s.1.dhtHandle.timeoutCnt.toNat = s.2
  armed : s.1.dhtTimer = true → s.2 ≤ 10
  ticks : s.2 ≤ 11
  queue : s.1.mainTaskQ.length ≤ MAIN_TASK_Q_SIZE
  /-- A capture that is complete has disabled the interrupt. -/
  idx : s.1.gpioIntr = true → s.1.dhtResultIdx ≤ 41

theorem inv_init : Inv machine.init where
  cnt := rfl
  armed h := absurd h Bool.false_ne_true
  ticks := Nat.zero_le 11
  queue := Nat.zero_le 2
  idx h := absurd h Bool.false_ne_true

theorem inv_dhtStart {b : Board} (hq : b.mainTaskQ.length ≤ MAIN_TASK_Q_SIZE)
    (hidx : b.gpioIntr = true → b.dhtResultIdx ≤ 41) : Inv (dhtStart b, 0) where
  cnt := rfl
  armed _ := Nat.zero_le 10
  ticks := Nat.zero_le 11
  queue := hq
  idx := hidx

/-- An armed timer has a tick left. -/
theorem timeoutCnt_succ {b : Board} {n : ℕ} (hcnt : b.dhtHandle.timeoutCnt.toNat = n) (hn : n ≤ 10) :
    (b.dhtHandle.timeoutCnt + 1).toNat = n + 1 := by
  rw [UInt8.toNat_add, hcnt]
  exact Nat.mod_eq_of_lt (by simp; omega)

theorem inv_dhtTimerCbk (now : UInt32) {b : Board} {n : ℕ} (h : Inv (b, n)) (hon : b.dhtTimer = true) :
    Inv (dhtTimerCbk now b, n + 1) := by
  have hn : n ≤ 10 := h.armed hon
  have hcnt : (counted b).dhtHandle.timeoutCnt.toNat = n + 1 := timeoutCnt_succ h.cnt hn
  have hidx : (0 : UInt8) ≤ 41 := by decide
  by_cases hlt : DHT_TIMEOUT < b.dhtHandle.timeoutCnt + 1
  · rw [dhtTimerCbk_of_lt now hlt]
    have hq : (timeout (counted b)).mainTaskQ = queued b.mainTaskQ [.dhtHandle] := timeout_mainTaskQ h.queue
    exact
      { cnt := (congrArg UInt8.toNat (timeout_timeoutCnt _)).trans hcnt
        armed := fun ht => absurd ((timeout_dhtTimer _).symm.trans ht) Bool.false_ne_true
        ticks := Nat.succ_le_succ hn
        queue := le_of_eq_of_le (congrArg List.length hq) (length_queued _ _)
        idx := fun _ => hidx }
  · rw [dhtTimerCbk_of_le now hlt]
    have hle : n + 1 ≤ 10 := by
      rw [UInt8.lt_iff_toNat_lt] at hlt
      exact hcnt ▸ not_lt.mp hlt
    exact
      { cnt := hcnt
        armed := fun _ => hle
        ticks := Nat.succ_le_succ hn
        queue := h.queue
        idx := fun _ => hidx }

/-- The end of a capture disarms the timer and disables the interrupt. -/
theorem inv_finish {b : Board} {n : ℕ} (hcnt : b.dhtHandle.timeoutCnt.toNat = n) (hn : n ≤ 11)
    (hq : b.mainTaskQ.length ≤ MAIN_TASK_Q_SIZE) : Inv (finish b, n) where
  cnt := by rw [finish_timeoutCnt, hcnt]
  armed ht := by
    rw [finish_dhtTimer] at ht
    cases ht
  ticks := hn
  queue := by
    rw [finish_mainTaskQ hq]
    exact length_queued _ _
  idx ht := by
    rw [(finish_keeps b).2.2] at ht
    cases ht

theorem inv_dhtGpioCbk (gpioStatus now now' : UInt32) {b : Board} {n : ℕ} (h : Inv (b, n)) :
    Inv (dhtGpioCbk gpioStatus now now' b, n) := by
  rcases dhtGpioCbk_cases b gpioStatus now now' with ⟨-, he⟩ | ⟨-, hi, he⟩ | ⟨-, -, he⟩
  · rw [he]
    exact { h with }
  · rw [he]
    exact
      { cnt := h.cnt
        armed := h.armed
        ticks := h.ticks
        queue := h.queue
        idx := fun _ => UInt8.not_lt.mp hi }
  · rw [he]
    exact inv_finish h.cnt h.ticks h.queue

theorem step_dispatch {b b' : Board} (h : step b .dispatch = some b') :
    ∃ p q, b.mainTaskQ = p :: q ∧ b' = mainTask { b with mainTaskQ := q } p := by
  rcases hq : b.mainTaskQ with _ | ⟨p, q⟩
  · simp only [step, hq] at h
    cases h
  · simp only [step, hq, Option.some.injEq] at h
    exact ⟨p, q, rfl, h.symm⟩

theorem inv_step (s : Board × ℕ) (e : Event) (s' : Board × ℕ) (h : Inv s) (hs : machine.step s e = some s') :
    Inv s' := by
  obtain ⟨b, n⟩ := s
  obtain ⟨b', n'⟩ := s'
  obtain ⟨hstep, hn⟩ := Machine.history_step.mp hs
  cases e with
  | dhtStart =>
    obtain rfl := Option.some.inj hstep
    subst hn
    exact inv_dhtStart h.queue h.idx
  | tick now =>
    obtain ⟨hon, hb⟩ := Option.ite_none_right_eq_some.mp hstep
    obtain rfl := Option.some.inj hb
    subst hn
    exact inv_dhtTimerCbk now h hon
  | gpio gpioStatus now now' =>
    obtain rfl := Option.some.inj hstep
    obtain rfl : n' = n := hn
    exact inv_dhtGpioCbk gpioStatus now now' h
  | dispatch =>
    obtain ⟨p, q, hq, rfl⟩ := step_dispatch hstep
    change n' = if b.mainTaskQ.head? = some .dhtHandle ∧ b.dhtHandle.state = .err then 0 else n at hn
    rw [hq, List.head?_cons] at hn
    subst hn
    have hlen : q.length ≤ MAIN_TASK_Q_SIZE := by
      have hle := h.queue
      rw [hq, List.length_cons] at hle
      omega
    have hrest : Inv ({ b with mainTaskQ := q }, n) := { h with queue := hlen }
    cases p with
    | null =>
      rw [if_neg fun hc => absurd hc.1 (by decide)]
      exact hrest
    | dhtHandle =>
      by_cases herr : b.dhtHandle.state = .err
      · rw [if_pos ⟨rfl, herr⟩, mainTask, if_pos herr]
        exact inv_dhtStart hlen h.idx
      · rw [if_neg fun hc => herr hc.2, mainTask, if_neg herr]
        exact hrest

/-! ### What disarms the timer -/

/-- A tick that disarms the timer posts one event. -/
theorem tick_disarms (now : UInt32) {b : Board} (hq : b.mainTaskQ.length ≤ MAIN_TASK_Q_SIZE)
    (hon : b.dhtTimer = true) (hoff : (dhtTimerCbk now b).dhtTimer = false) :
    posted b (.tick now) = [.dhtHandle] ∧ (dhtTimerCbk now b).mainTaskQ = queued b.mainTaskQ [.dhtHandle] := by
  by_cases hlt : DHT_TIMEOUT < b.dhtHandle.timeoutCnt + 1
  · have hempty : posted b (.tick now) = (timeout { counted b with mainTaskQ := [] }).mainTaskQ := by
      rw [posted, dhtTimerCbk_of_lt now (b := { b with mainTaskQ := [] }) hlt]
      rfl
    rw [hempty, timeout_mainTaskQ (b := { counted b with mainTaskQ := [] }) (Nat.zero_le 2),
      dhtTimerCbk_of_lt now hlt]
    exact ⟨rfl, timeout_mainTaskQ (b := counted b) hq⟩
  · rw [dhtTimerCbk_of_le now hlt] at hoff
    exact absurd (hon.symm.trans hoff) (by decide)

/-- An interrupt that disarms it is the end of a capture. -/
theorem gpio_disarms (gpioStatus now now' : UInt32) {b : Board} (hq : b.mainTaskQ.length ≤ MAIN_TASK_Q_SIZE)
    (hon : b.dhtTimer = true) (hoff : (dhtGpioCbk gpioStatus now now' b).dhtTimer = false) :
    ∃ ps, ps ≠ [] ∧ posted b (.gpio gpioStatus now now') = ps ∧
      (dhtGpioCbk gpioStatus now now' b).mainTaskQ = queued b.mainTaskQ ps := by
  rcases dhtGpioCbk_cases b gpioStatus now now' with ⟨-, he⟩ | ⟨-, -, he⟩ | ⟨hs, hi, he⟩
  · rw [he] at hoff
    exact absurd (hon.symm.trans hoff) (by decide)
  · rw [he] at hoff
    exact absurd (hon.symm.trans hoff) (by decide)
  · set c : Board := record now now' (b.setState .meas)
    have hlast : lastEdge gpioStatus { b with mainTaskQ := [] } = true := by simp [lastEdge, hs, hi]
    have hempty : posted b (.gpio gpioStatus now now') = (finish { c with mainTaskQ := [] }).mainTaskQ := by
      rw [posted, dhtGpioCbk_of_last _ gpioStatus now now' hlast]
      rfl
    rw [hempty, finish_mainTaskQ (b := { c with mainTaskQ := [] }) (Nat.zero_le 2), he]
    refine ⟨finishPosts c, ?_, ?_, finish_mainTaskQ (b := c) hq⟩
    · unfold finishPosts
      split <;> exact List.cons_ne_nil _ _
    · unfold queued finishPosts
      split <;> rfl

/-- mainTask arms the timer or leaves it. -/
theorem mainTask_dhtTimer {b : Board} (hon : b.dhtTimer = true) (p : Par) : (mainTask b p).dhtTimer = true := by
  cases p with
  | null => exact hon
  | dhtHandle =>
    rw [mainTask]
    split
    · rfl
    · exact hon

theorem posts_at_disarm {s : Board × ℕ} (e : Event) (h : Inv s) : PostsAtDisarm s e := by
  intro s' hs hon hoff
  obtain ⟨hstep, -⟩ := Machine.history_step.mp hs
  cases e with
  | dhtStart =>
    have hb := Option.some.inj hstep
    exact absurd (hb ▸ hoff : (dhtStart s.1).dhtTimer = false) (by simp [dhtStart])
  | tick now =>
    obtain ⟨-, hb⟩ := Option.ite_none_right_eq_some.mp hstep
    have hb := Option.some.inj hb
    obtain ⟨hp, hq⟩ := tick_disarms now h.queue hon (hb ▸ hoff)
    rw [hp, ← hb, hq]
    exact ⟨List.cons_ne_nil _ _, rfl⟩
  | gpio gpioStatus now now' =>
    have hb := Option.some.inj hstep
    obtain ⟨ps, hne, hp, hq⟩ := gpio_disarms gpioStatus now now' h.queue hon (hb ▸ hoff)
    rw [hp, ← hb, hq]
    exact ⟨hne, rfl⟩
  | dispatch =>
    obtain ⟨p, q, -, hb⟩ := step_dispatch hstep
    have hkept := mainTask_dhtTimer (b := { s.1 with mainTaskQ := q }) hon p
    rw [← hb, hoff] at hkept
    cases hkept

/-! ### Runs -/

/-- An interrupt that comes while it is enabled stores inside of `DhtResult`. -/
theorem stores_in_range (es : List Event) :
    machine.Throughout (fun s => s.1.gpioIntr = true → s.1.dhtResultIdx ≤ 41) machine.init es :=
  (machine.throughout_of_inv inv_step inv_init es).mono machine fun _ h => h.idx

theorem bounded_of_inv {s : Board × ℕ} (h : Inv s) : Bounded s := by
  refine ⟨fun hon => ?_, ?_, h.cnt, h.ticks⟩
  · rw [UInt8.le_iff_toNat_le, h.cnt]
    exact h.armed hon
  · rw [UInt8.le_iff_toNat_le, h.cnt]
    exact h.ticks

/-- **The time-out discipline.** In a run of starts, ticks, interrupts and events of
mainTask the counter is at most 10 while the timer is armed and at most 11 at all,
there are at most 11 ticks after a start, and what disarms the timer posts an event
to mainTask. -/
theorem timeout_discipline (es : List Event) :
    machine.Throughout Bounded machine.init es ∧ machine.Along PostsAtDisarm machine.init es :=
  ⟨(machine.throughout_of_inv inv_step inv_init es).mono machine fun _ h => bounded_of_inv h,
    machine.along_of_inv inv_step (fun _ e h => posts_at_disarm e h) inv_init es⟩

end DhtTimeout
end Netacademia
