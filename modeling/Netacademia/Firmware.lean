/-
# The firmware, statement by statement

`orai_munka/user`: `user_init`, `mainTask`, the timer and start routines of the
DHT driver and the callbacks of the daemon connection. All of these run as
tasks, one after the other; the GPIO interrupt may be taken between any two of
their statements while it is enabled, and its handler `dhtGpioCbk` runs to its
end. So a state is the shared `Board`, the statics of the tasks, and what is
left of the running task (`cont`, empty when none runs).

A C function is the list of its statements, prints left out. A branch and a
call are one statement, which puts the statements it leads to in front of the
rest. A statement that only drives pins or pads, or programs a timer without
arming it, is an `Io`: it changes nothing that the code reads. So is the call
of `dhtStart` for a `DHT_GET`, which marks where the request's window begins.
-/
import Netacademia.Lib.Machine
import Netacademia.Dht
import Netacademia.DaemonHandle

namespace Netacademia
namespace Firmware

open Lib Dht DaemonHandle

/-- The statements without an effect on the modelled state. -/
inductive Io
  | pinFuncSelect | pinOn | pinOff | disOutput | intrAttach | pinRegister | statusClear | negEdge
  | delay | timerSetfn
  | callDhtStart
  deriving DecidableEq, Repr

inductive Stmt
  | io (op : Io)
  -- dhtGpioCbkSetup
  | intrDisable | intrEnable | resetIdx | clearResult | readOffset
  -- dhtTimerCbk
  | incTimeout | ifTimeout | timerDisarm | setErr | post
  -- dhtInit, dhtStart
  | setPrep | clearTimeout | timerArm
  -- mainTask
  | switchState | sprintfHum | sprintfTemp
  | daemonRequest (printbuf : Bool)
  -- daemonHandleAnswer, daemonConInit
  | ifAnswer (pdata stack : List UInt8)
  | incDaemonSts | clearDaemonSts
  deriving DecidableEq, Repr

structure Fw where
  board : Board
  daemonSts : UInt8
  printbuf : List Char
  cont : List Stmt

/-! ### The routines -/

def dhtGpioCbkSetup : List Stmt :=
  [.intrDisable, .io .disOutput, .io .intrAttach, .io .pinRegister, .io .statusClear, .io .negEdge,
    .intrEnable, .resetIdx, .clearResult, .readOffset]

def dhtTimerCbk : List Stmt :=
  [.incTimeout, .io .pinOn, .io .disOutput, .ifTimeout] ++ dhtGpioCbkSetup

/-- The branch `DHT_TIMEOUT < TimeoutCnt` of `dhtTimerCbk`. -/
def timeout : List Stmt := [.timerDisarm, .setErr, .post]

def dhtInit : List Stmt := [.io .pinFuncSelect, .io .pinOn, .setPrep, .clearTimeout]

def dhtStart : List Stmt := dhtInit ++ [.io .delay, .io .pinOff, .io .timerSetfn, .timerArm]

/-- `mainTask(e)`, up to the `switch`. -/
def mainTask : Par → List Stmt
  | .null => []
  | .dhtHandle => [.switchState]

/-- The cases of the `switch` in mainTask. -/
def mainTaskCase : DhtState → List Stmt
  | .err => dhtStart
  | .compl => [.sprintfHum, .sprintfTemp, .daemonRequest true]
  | _ => []

/-- The branches of `daemonHandleAnswer`. -/
def daemonHandleAnswer : Answer → List Stmt
  | .dhtGet => .incDaemonSts :: .io .callDhtStart :: dhtStart
  | .ok => [.clearDaemonSts]
  | .unhandled => []

/-- `user_init`, from `system_os_task` on. -/
def userInit : List Stmt := dhtStart ++ [.io .timerSetfn]

/-- `(int)x`: C truncates toward zero. -/
def trunc (x : ℚ) : ℤ := x.num.tdiv x.den

/-- `"%d,%d", (int)x, (int)((x - (int)x)*100)` -/
def sprintfReading (x : ℚ) : List Char :=
  intText (trunc x) ++ [','] ++ intText (trunc ((x - trunc x) * 100))

/-! ### One statement -/

/-- A statement: the new state, and what it puts in front of the rest of the
task. `now` is the time the clock shows. -/
def exec (now : UInt32) (s : Fw) : Stmt → Fw × List Stmt
  | .io _ => (s, [])
  | .intrDisable => ({ s with board := { s.board with gpioIntr := false } }, [])
  | .intrEnable => ({ s with board := { s.board with gpioIntr := true } }, [])
  | .resetIdx => ({ s with board := { s.board with dhtResultIdx := 0 } }, [])
  | .clearResult => ({ s with board := { s.board with dhtResult := Vector.replicate 42 0 } }, [])
  | .readOffset => ({ s with board := { s.board with dhtTimeOffset := now } }, [])
  | .incTimeout =>
    ({ s with board := { s.board with
        dhtHandle := { s.board.dhtHandle with timeoutCnt := s.board.dhtHandle.timeoutCnt + 1 } } }, [])
  | .ifTimeout => (s, if DHT_TIMEOUT < s.board.dhtHandle.timeoutCnt then timeout else [])
  | .timerDisarm => ({ s with board := { s.board with dhtTimer := false } }, [])
  | .setErr => ({ s with board := s.board.setState .err }, [])
  | .post => ({ s with board := s.board.post }, [])
  | .setPrep => ({ s with board := s.board.setState .prep }, [])
  | .clearTimeout =>
    ({ s with board := { s.board with dhtHandle := { s.board.dhtHandle with timeoutCnt := 0 } } }, [])
  | .timerArm => ({ s with board := { s.board with dhtTimer := true } }, [])
  | .switchState => (s, mainTaskCase s.board.dhtHandle.state)
  | .sprintfHum => ({ s with printbuf := sprintfReading s.board.dhtHandle.dhtHum }, [])
  | .sprintfTemp =>
    ({ s with printbuf := ['T', 'E', 'M', 'P', ':'] ++ sprintfReading s.board.dhtHandle.dhtTemp }, [])
  | .daemonRequest pb =>
    ({ s with daemonSts := (DaemonHandle.daemonRequest (if pb then some s.printbuf else none) s.daemonSts).1 }, [])
  | .ifAnswer pdata stack => (s, daemonHandleAnswer (answer pdata stack))
  | .incDaemonSts => ({ s with daemonSts := s.daemonSts + 1 }, [])
  | .clearDaemonSts => ({ s with daemonSts := 0 }, [])

/-- The sends of a statement. -/
def sends (s : Fw) : Stmt → List Send
  | .daemonRequest pb => (DaemonHandle.daemonRequest (if pb then some s.printbuf else none) s.daemonSts).2
  | _ => []

/-! ### The steps -/

inductive Event
  /-- The GPIO interrupt, with the status register and the two times its handler reads. -/
  | gpio (gpioStatus now now' : UInt32)
  /-- `DhtTimer` expires. -/
  | tick
  /-- mainTask takes the first event of its queue. -/
  | dispatch
  /-- `socketStarter`: `daemonConInit` ends with `daemonSts = 0`. -/
  | socketStarter
  | connCbk
  | reconnCbk
  /-- `daemonConRecvCbk`, with the bytes received and the stack below `buf`. -/
  | recvCbk (pdata stack : List UInt8)
  /-- The running task executes its next statement. -/
  | exec (now : UInt32)

/-- The task an event begins, with the board it finds. -/
def taskOf (b : Board) : Event → Option (Board × List Stmt)
  | .tick => if b.dhtTimer then some (b, dhtTimerCbk) else none
  | .dispatch =>
    match b.mainTaskQ with
    | [] => none
    | e :: q => some ({ b with mainTaskQ := q }, mainTask e)
  | .socketStarter => some (b, [.clearDaemonSts])
  | .connCbk => some (b, [.daemonRequest false])
  | .reconnCbk => some (b, [.daemonRequest false])
  | .recvCbk pdata stack => some (b, [.ifAnswer pdata stack])
  | _ => none

def step (s : Fw) : Event → Option Fw
  | .gpio gpioStatus now now' =>
    if s.board.gpioIntr then some { s with board := dhtGpioCbk gpioStatus now now' s.board } else none
  | .exec now =>
    match s.cont with
    | [] => none
    | c :: rest => some { (exec now s c).1 with cont := (exec now s c).2 ++ rest }
  | e =>
    -- a task begins when none runs
    if s.cont = [] then (taskOf s.board e).map fun t => { s with board := t.1, cont := t.2 } else none

/-- The firmware from reset on. -/
def firmware : Machine Fw Event where
  init := { board := .reset, daemonSts := 0, printbuf := [], cont := userInit }
  step := step

/-- The statements of a task, one after the other. -/
def execs (now : UInt32) (n : ℕ) : List Event := List.replicate n (.exec now)

/-! ### What a step can do -/

/-- What a step of the firmware can do: run the interrupt handler, begin a
task, or execute a statement of the running one. -/
theorem step_cases {s s' : Fw} {e : Event} (h : step s e = some s') :
    (∃ gs n n', e = .gpio gs n n' ∧ s.board.gpioIntr = true ∧
      s' = { s with board := dhtGpioCbk gs n n' s.board }) ∨
    (∃ b task, taskOf s.board e = some (b, task) ∧ s.cont = [] ∧ s' = { s with board := b, cont := task }) ∨
    (∃ now c rest, e = .exec now ∧ s.cont = c :: rest ∧
      s' = { (exec now s c).1 with cont := (exec now s c).2 ++ rest }) := by
  -- every event but the first and the last begins a task
  have hbegin : ∀ e : Event, (if s.cont = [] then (taskOf s.board e).map fun t =>
      { s with board := t.1, cont := t.2 } else none) = some s' →
      ∃ b task, taskOf s.board e = some (b, task) ∧ s.cont = [] ∧
        s' = { s with board := b, cont := task } := by
    intro e h
    split at h
    · obtain ⟨⟨b, task⟩, ht, rfl⟩ := Option.map_eq_some_iff.mp h
      exact ⟨b, task, ht, ‹_›, rfl⟩
    · cases h
  cases e with
  | gpio gs n n' =>
    simp only [step] at h
    split at h
    · exact Or.inl ⟨gs, n, n', rfl, ‹_›, (Option.some.inj h).symm⟩
    · cases h
  | exec now =>
    simp only [step] at h
    split at h
    · cases h
    · rename_i c rest hc
      exact Or.inr (Or.inr ⟨now, c, rest, rfl, hc, (Option.some.inj h).symm⟩)
  | tick => exact Or.inr (Or.inl (hbegin .tick h))
  | dispatch => exact Or.inr (Or.inl (hbegin .dispatch h))
  | socketStarter => exact Or.inr (Or.inl (hbegin .socketStarter h))
  | connCbk => exact Or.inr (Or.inl (hbegin .connCbk h))
  | reconnCbk => exact Or.inr (Or.inl (hbegin .reconnCbk h))
  | recvCbk pdata stack => exact Or.inr (Or.inl (hbegin (.recvCbk pdata stack) h))

/-- The interrupt is taken only while it is enabled. -/
theorem gpioIntr_of_step {s s' : Fw} {gs n n' : UInt32} (h : step s (.gpio gs n n') = some s') :
    s.board.gpioIntr = true := by
  simp only [step] at h
  split at h
  · assumption
  · cases h

/-- What a task finds: the board, less the event it was posted. -/
theorem taskOf_cases {b b' : Board} {e : Event} {task : List Stmt} (h : taskOf b e = some (b', task)) :
    (e = .tick ∧ b.dhtTimer = true ∧ b' = b ∧ task = dhtTimerCbk) ∨
    (∃ p q, e = .dispatch ∧ b.mainTaskQ = p :: q ∧ b' = { b with mainTaskQ := q } ∧ task = mainTask p) ∨
    (b' = b ∧ (task = [.clearDaemonSts] ∨ task = [.daemonRequest false] ∨
      ∃ pdata stack, task = [.ifAnswer pdata stack])) := by
  cases e with
  | tick =>
    simp only [taskOf] at h
    split at h
    · cases h
      exact Or.inl ⟨rfl, ‹_›, rfl, rfl⟩
    · cases h
  | dispatch =>
    simp only [taskOf] at h
    split at h
    · cases h
    · rename_i p q hq
      cases h
      exact Or.inr (Or.inl ⟨p, q, rfl, hq, rfl, rfl⟩)
  | socketStarter => cases h; exact Or.inr (Or.inr ⟨rfl, Or.inl rfl⟩)
  | connCbk => cases h; exact Or.inr (Or.inr ⟨rfl, Or.inr (Or.inl rfl)⟩)
  | reconnCbk => cases h; exact Or.inr (Or.inr ⟨rfl, Or.inr (Or.inl rfl)⟩)
  | recvCbk pdata stack => cases h; exact Or.inr (Or.inr ⟨rfl, Or.inr (Or.inr ⟨_, _, rfl⟩)⟩)
  | gpio gs n n' => cases h
  | exec now => cases h

/-- The begin of a task leaves the driver's record alone. -/
theorem taskOf_dhtHandle {b b' : Board} {e : Event} {task : List Stmt} (h : taskOf b e = some (b', task)) :
    b'.dhtHandle = b.dhtHandle := by
  rcases taskOf_cases h with ⟨-, -, rfl, -⟩ | ⟨p, q, -, -, rfl, -⟩ | ⟨rfl, -⟩ <;> rfl

end Firmware
end Netacademia
