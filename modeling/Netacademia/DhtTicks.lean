/-
# The time-out counter, statement by statement

`TimeoutCnt` of `orai_munka/user/dht.c` in the runs of the firmware in which the GPIO
interrupt is taken between any two statements. `dhtTimerCbk` counts and tests, `dhtInit`
clears, and the end of a capture disarms `DhtTimer` at any point between them.

* `counter_bounded`: the counter is the number of ticks since it was last cleared, but for
  one that is still to be counted; it never passes 11, and a time-out disarms the timer at
  the eleventh tick and no other.
-/
import Netacademia.DhtTimeout
import Netacademia.Tasks

namespace Netacademia
namespace DhtTicks

open Lib Dht Firmware Tasks

/-- The ticks of the timer since `TimeoutCnt` was cleared. -/
def ticks (n : ℕ) (s : Fw) : Event → ℕ
  | .tick => n + 1
  | .exec _ =>
    match s.cont with
    | .clearTimeout :: _ => 0
    | _ => n
  | _ => n

/-- Whether the task of a tick has its `TimeoutCnt++` still to run. -/
def pending (cont : List Stmt) : ℕ := cont.count .incTimeout

/-- The firmware with its ticks. -/
def counted : Machine (Fw × ℕ) Event := firmware.history 0 ticks

/-- The counter counts the ticks, these are one ahead while one is pending, and it does
not wrap; a timer that no task is about to
disarm has a tick left, and the time-out takes all of them. -/
structure Bounded (s : Fw × ℕ) : Prop where
  cnt : s.1.board.dhtHandle.timeoutCnt.toNat + pending s.1.cont = s.2
  le : s.2 ≤ 11
  armed : s.1.cont = [] → s.1.board.dhtTimer = true → s.2 ≤ 10
  timeout : s.1.cont.head? = some .timerDisarm → s.2 = 11

/-! ### The next statement on the counter or the timer -/

def counts : Stmt → Bool
  | .incTimeout | .ifTimeout | .timerDisarm | .clearTimeout | .timerArm => true
  | _ => false

def next (cont : List Stmt) : Option Stmt := cont.find? counts

/-- How many ticks there can be before it. -/
def Room (cont : List Stmt) (armed : Bool) (n : ℕ) : Prop :=
  match next cont with
  | some .incTimeout | some .ifTimeout | some .clearTimeout => n ≤ 11
  | some .timerDisarm => n = 11
  | some _ => n ≤ 10
  | none => n ≤ 11 ∧ (armed = true → n ≤ 10)

theorem Room.le {cont : List Stmt} {armed : Bool} {n : ℕ} (h : Room cont armed n) : n ≤ 11 := by
  unfold Room at h
  split at h <;> omega

/-- A timer that is disarmed leaves no less room. -/
theorem Room.mono {cont : List Stmt} {armed armed' : Bool} {n : ℕ} (h : Room cont armed n)
    (ha : armed' = true → armed = true) : Room cont armed' n := by
  unfold Room at h ⊢
  split
  all_goals simp_all

theorem room_cons {c : Stmt} (hc : counts c = false) {rest : List Stmt} {armed : Bool} {n : ℕ} :
    Room (c :: rest) armed n ↔ Room rest armed n := by
  unfold Room next
  rw [List.find?_cons_of_neg (by rw [hc]; exact Bool.false_ne_true)]

/-- What follows a statement on the counter. -/
def Follows : List Stmt → Bool
  | .incTimeout :: rest => next rest == some .ifTimeout
  | .timerDisarm :: rest => next rest == none
  | .clearTimeout :: rest => next rest == some .timerArm
  | .timerArm :: rest => next rest == none
  | _ => true

theorem Cont.follows {cont : List Stmt} (h : Cont cont) : Follows cont = true :=
  Cont.all (P := fun cont => Follows cont = true) (fun _ _ => rfl) (by decide) h

/-- A tick is counted by the first statement of its task. -/
theorem Cont.pending_tail {c : Stmt} {rest : List Stmt} (h : Cont (c :: rest)) : pending rest = 0 :=
  Cont.all (P := fun cont => pending cont.tail = 0) (fun _ _ => rfl) (by decide) h

theorem pending_front (now : UInt32) (s : Fw) (c : Stmt) : pending (exec now s c).2 = 0 := by
  cases c with
  | ifTimeout => simp only [exec]; split <;> decide
  | switchState => simp only [exec]; cases s.board.dhtHandle.state <;> decide
  | ifAnswer pdata stack =>
    simp only [exec]
    cases DaemonHandle.answer pdata stack <;> decide
  | _ => rfl

/-- After a statement no tick is pending. -/
theorem pending_exec {now : UInt32} {s : Fw} {c : Stmt} {rest : List Stmt} (h : Cont (c :: rest)) :
    pending ((exec now s c).2 ++ rest) = 0 := by
  have hfront := pending_front now s c
  have hrest := Cont.pending_tail h
  unfold pending at hfront hrest ⊢
  rw [List.count_append, hfront, hrest]

theorem pending_of_ne {c : Stmt} {rest : List Stmt} (h : Cont (c :: rest)) (hc : c ≠ .incTimeout) :
    pending (c :: rest) = 0 := by
  have hrest := Cont.pending_tail h
  unfold pending at hrest ⊢
  rw [List.count_cons_of_ne hc, hrest]

/-! ### The invariant -/

structure Inv (s : Fw × ℕ) : Prop where
  cont : Cont s.1.cont
  cnt : s.1.board.dhtHandle.timeoutCnt.toNat + pending s.1.cont = s.2
  room : Room s.1.cont s.1.board.dhtTimer s.2

theorem inv_init : Inv counted.init where
  cont := cont_init
  cnt := rfl
  room := Nat.zero_le 11

theorem Inv.bounded {s : Fw × ℕ} (h : Inv s) : Bounded s where
  cnt := h.cnt
  le := h.room.le
  armed hc ha := by
    have hr := h.room
    rw [hc] at hr
    exact hr.2 ha
  timeout hd := by
    obtain ⟨rest, hc⟩ : ∃ rest, s.1.cont = .timerDisarm :: rest := List.head?_eq_some_iff.mp hd
    have hr := h.room
    rw [hc] at hr
    exact hr

/-- The interrupt leaves the counter, and arms nothing. -/
theorem inv_gpio {b : Board} {sts : UInt8} {pb : List Char} {cont : List Stmt} {n : ℕ}
    (h : Inv (⟨b, sts, pb, cont⟩, n)) (gs now now' : UInt32) :
    Inv (⟨dhtGpioCbk gs now now' b, sts, pb, cont⟩, n) := by
  have hkeeps : (dhtGpioCbk gs now now' b).dhtHandle.timeoutCnt = b.dhtHandle.timeoutCnt ∧
      ((dhtGpioCbk gs now now' b).dhtTimer = true → b.dhtTimer = true) := by
    rcases dhtGpioCbk_cases b gs now now' with ⟨-, he⟩ | ⟨-, -, he⟩ | ⟨-, -, he⟩
    · rw [he]
      exact ⟨rfl, id⟩
    · rw [he]
      exact ⟨rfl, id⟩
    · rw [he]
      refine ⟨DhtTimeout.finish_timeoutCnt _, fun ht => ?_⟩
      rw [DhtTimeout.finish_dhtTimer] at ht
      exact absurd ht Bool.false_ne_true
  exact
    { cont := h.cont
      cnt := by
        rw [hkeeps.1]
        exact h.cnt
      room := h.room.mono hkeeps.2 }

/-- A tick is pending in the task that it begins, and in no other. -/
theorem ticks_task {s : Fw} {e : Event} {b : Board} {task : List Stmt} (ht : taskOf s.board e = some (b, task))
    (n : ℕ) : ticks n s e = n + pending task := by
  cases e with
  | tick =>
    obtain ⟨-, he⟩ := Option.ite_none_right_eq_some.mp ht
    obtain ⟨-, rfl⟩ := Prod.mk.inj (Option.some.inj he)
    rfl
  | dispatch =>
    rcases taskOf_cases ht with ⟨he, -⟩ | ⟨p, q, -, -, -, rfl⟩ | ⟨-, rfl | rfl | ⟨pdata, stack, rfl⟩⟩
    · cases he
    · cases p <;> rfl
    · rfl
    · rfl
    · rfl
  | gpio gs now now' => cases ht
  | exec now => cases ht
  | _ =>
    cases ht
    rfl

/-- A task begins when none runs, and so with the room of the timer. -/
theorem inv_task {s : Fw × ℕ} (h : Inv s) {e : Event} {b : Board} {task : List Stmt} (hc : s.1.cont = [])
    (ht : taskOf s.1.board e = some (b, task)) : Inv ({ s.1 with board := b, cont := task }, ticks s.2 s.1 e) := by
  have hcnt : b.dhtHandle.timeoutCnt.toNat = s.2 := by
    have hcnt := h.cnt
    rw [hc] at hcnt
    rw [taskOf_dhtHandle ht]
    exact hcnt
  have hroom : s.2 ≤ 11 ∧ (s.1.board.dhtTimer = true → s.2 ≤ 10) := by
    have hroom := h.room
    rw [hc] at hroom
    exact hroom
  rw [ticks_task ht]
  refine ⟨cont_task ht, congrArg (· + pending task) hcnt, ?_⟩
  rcases taskOf_cases ht with ⟨-, harmed, rfl, rfl⟩ | ⟨p, q, -, -, rfl, rfl⟩ | ⟨rfl, rfl | rfl | ⟨pdata, stack, rfl⟩⟩
  · exact Nat.succ_le_succ (hroom.2 harmed)
  · cases p <;> exact hroom
  · exact hroom
  · exact hroom
  · exact hroom

/-- The branches that a task can take next. -/
theorem room_branch {now : UInt32} {s : Fw} {c : Stmt} (hc : counts c = false) {rest : List Stmt} (h : Cont (c :: rest))
    {n : ℕ} (hr : Room (c :: rest) s.board.dhtTimer n) :
    Room ((exec now s c).2 ++ rest) s.board.dhtTimer n := by
  have hrest : Room rest s.board.dhtTimer n := (room_cons hc).mp hr
  have hb := h.branches
  cases c with
  | switchState =>
    obtain rfl : rest = [] := by simpa [Branches] using hb
    simp only [exec]
    cases s.board.dhtHandle.state with
    | err => exact hrest.1
    | _ => exact hrest
  | ifAnswer pdata stack =>
    obtain rfl : rest = [] := by simpa [Branches] using hb
    simp only [exec]
    cases DaemonHandle.answer pdata stack with
    | dhtGet => exact hrest.1
    | _ => exact hrest
  | incTimeout | ifTimeout | timerDisarm | clearTimeout | timerArm => exact absurd hc (by decide)
  | _ => exact hrest

/-- A statement that is not on the counter leaves it, and the timer. -/
theorem exec_keeps {now : UInt32} (s : Fw) {c : Stmt} (hc : counts c = false) :
    (exec now s c).1.board.dhtHandle.timeoutCnt = s.board.dhtHandle.timeoutCnt ∧
      (exec now s c).1.board.dhtTimer = s.board.dhtTimer := by
  cases c with
  | incTimeout | ifTimeout | timerDisarm | clearTimeout | timerArm => exact absurd hc (by decide)
  | post => exact ⟨congrArg DhtHandler.timeoutCnt (post_dhtHandle _), post_dhtTimer _⟩
  | _ => exact ⟨rfl, rfl⟩

theorem ticks_exec {n : ℕ} {s : Fw} {now : UInt32} {c : Stmt} {rest : List Stmt} (hcont : s.cont = c :: rest)
    (hc : counts c = false) : ticks n s (.exec now) = n := by
  simp only [ticks, hcont]
  cases c with
  | clearTimeout => exact absurd hc (by decide)
  | _ => rfl

section Exec

variable {s : Fw × ℕ} {now : UInt32} {c : Stmt} {rest : List Stmt}

/-- The counter and the ticks go together. -/
theorem cnt_exec (h : Inv s) (hcont : s.1.cont = c :: rest) :
    (exec now s.1 c).1.board.dhtHandle.timeoutCnt.toNat + pending ((exec now s.1 c).2 ++ rest) =
      ticks s.2 s.1 (.exec now) := by
  have htail : Cont (c :: rest) := hcont ▸ h.cont
  have hcnt : s.1.board.dhtHandle.timeoutCnt.toNat + pending (c :: rest) = s.2 := hcont ▸ h.cnt
  rw [pending_exec htail, Nat.add_zero]
  by_cases hinc : c = .incTimeout
  · subst hinc
    have hle := h.room.le
    have hone : pending (.incTimeout :: rest) = 1 := by
      have hrest := Cont.pending_tail htail
      unfold pending at hrest ⊢
      rw [List.count_cons_self, hrest]
    rw [hone] at hcnt
    simp only [ticks, hcont, exec]
    rw [DhtTimeout.timeoutCnt_succ rfl (by omega), hcnt]
  · rw [pending_of_ne htail hinc, Nat.add_zero] at hcnt
    by_cases hc : counts c = false
    · rw [ticks_exec hcont hc, (exec_keeps s.1 hc).1]
      exact hcnt
    · cases c with
      | incTimeout => exact absurd rfl hinc
      | clearTimeout =>
        simp only [ticks, hcont]
        rfl
      | ifTimeout | timerDisarm | timerArm =>
        simp only [ticks, hcont, exec]
        exact hcnt
      | _ => exact absurd rfl hc

/-- The test lets the eleventh tick through to the time-out, and no tick before. -/
theorem room_ifTimeout (hcnt : s.1.board.dhtHandle.timeoutCnt.toNat = s.2) (hn : s.2 ≤ 11) :
    Room ((exec now s.1 .ifTimeout).2 ++ dhtGpioCbkSetup) s.1.board.dhtTimer s.2 := by
  have hlt : DHT_TIMEOUT < s.1.board.dhtHandle.timeoutCnt ↔ 10 < s.2 := by
    rw [UInt8.lt_iff_toNat_lt, hcnt]
    rfl
  simp only [exec]
  by_cases ht : 10 < s.2
  · rw [if_pos (hlt.mpr ht)]
    show s.2 = 11
    omega
  · rw [if_neg (mt hlt.mp ht)]
    exact ⟨hn, fun _ => not_lt.mp ht⟩

/-- A statement leaves the room that the next one on the counter needs. -/
theorem room_exec (h : Inv s) (hcont : s.1.cont = c :: rest) :
    Room ((exec now s.1 c).2 ++ rest) (exec now s.1 c).1.board.dhtTimer (ticks s.2 s.1 (.exec now)) := by
  have htail : Cont (c :: rest) := hcont ▸ h.cont
  have hroom : Room (c :: rest) s.1.board.dhtTimer s.2 := hcont ▸ h.room
  have hfollows := Cont.follows htail
  by_cases hc : counts c = false
  · rw [ticks_exec hcont hc, (exec_keeps s.1 hc).2]
    exact room_branch hc htail hroom
  · cases c with
    | incTimeout =>
      have hn : s.2 ≤ 11 := hroom
      have hnext : next rest = some .ifTimeout := by simpa [Follows] using hfollows
      simp only [ticks, hcont, exec, List.nil_append, Room, hnext]
      exact hn
    | ifTimeout =>
      obtain rfl : rest = dhtGpioCbkSetup := by simpa [Branches] using htail.branches
      have hticks : ticks s.2 s.1 (.exec now) = s.2 := by simp only [ticks, hcont]
      have hcnt : s.1.board.dhtHandle.timeoutCnt.toNat = s.2 := by
        have hcnt := h.cnt
        rwa [hcont, pending_of_ne htail Stmt.noConfusion, Nat.add_zero] at hcnt
      rw [hticks]
      exact room_ifTimeout hcnt hroom
    | timerDisarm =>
      have hn : s.2 = 11 := hroom
      have hnext : next rest = none := by simpa [Follows] using hfollows
      simp only [ticks, hcont, exec, List.nil_append, Room, hnext]
      exact ⟨hn.le, fun ht => absurd ht Bool.false_ne_true⟩
    | clearTimeout =>
      have hnext : next rest = some .timerArm := by simpa [Follows] using hfollows
      simp only [ticks, hcont, exec, List.nil_append, Room, hnext]
      exact Nat.zero_le 10
    | timerArm =>
      have hn : s.2 ≤ 10 := hroom
      have hnext : next rest = none := by simpa [Follows] using hfollows
      simp only [ticks, hcont, exec, List.nil_append, Room, hnext]
      exact ⟨Nat.le_succ_of_le hn, fun _ => hn⟩
    | _ => exact absurd rfl hc

end Exec

theorem inv_step (s : Fw × ℕ) (e : Event) (s' : Fw × ℕ) (h : Inv s) (hs : counted.step s e = some s') : Inv s' := by
  obtain ⟨fw', n'⟩ := s'
  obtain ⟨hstep, rfl⟩ := Machine.history_step.mp hs
  rcases step_cases hstep with ⟨gs, now, now', rfl, -, rfl⟩ | ⟨b, task, ht, hc, rfl⟩ | ⟨now, c, rest, rfl, hc, rfl⟩
  · exact @inv_gpio s.1.board s.1.daemonSts s.1.printbuf _ _ h gs now now'
  · exact inv_task h hc ht
  · exact ⟨cont_exec now s.1 (hc ▸ h.cont), cnt_exec h hc, room_exec h hc⟩

/-- **The time-out with interrupts between any two statements.** Wherever interrupts are
taken, `TimeoutCnt` is the number of ticks since it was last cleared, less one that is still
to be counted, and at most 11; an armed timer has a tick left when no task runs, and what
disarms it in `dhtTimerCbk` is the eleventh tick. -/
theorem counter_bounded (es : List Event) : counted.Throughout Bounded counted.init es :=
  (counted.throughout_of_inv inv_step inv_init es).mono counted fun _ h => h.bounded

end DhtTicks
end Netacademia
