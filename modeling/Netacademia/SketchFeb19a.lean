/-
# The first sketch

`loop()` of `orai_munka/sketch_feb19a/sketch_feb19a.ino`, with `SocketCbk` of
`orai_munka/daemon.py` at the other end. In state 0 the sketch sends `DAEMON_ASK`
and waits in `while(client.connected());`: the loop ends with the semicolon, and
the block behind it, which reads the answer, runs once after it. As long as the
answer is unread the client counts as connected, so the loop is not left with an
answer to read (`inv_step`): no run ever reads one (`never_progresses`).

The client holds one connection at a time; what the daemon sends is under way
until it arrives, in any parts.
-/
import Netacademia.Sketch

namespace Netacademia
namespace SketchFeb19a

open Lib
open Daemons (DAEMON_ASK DHT_GET OK)
open Sketch (floatText)

/-- `"LOL"` -/
def LOL : List UInt8 := ascii ['L', 'O', 'L']

/-- `String("TEMP: " + temp + " " + " HUM: " + hum)` -/
def report (temp hum : Option ℤ) : List UInt8 :=
  ascii (['T', 'E', 'M', 'P', ':', ' '] ++ floatText temp ++ [' '] ++ [' ', 'H', 'U', 'M', ':', ' '] ++
    floatText hum)

/-- The next statement of `loop()`. -/
inductive Pc
  | connect | test0
  -- `ClientState == 0`: the empty loop, and the block behind it
  | ask | wait0 | lol | read0
  -- `ClientState == 1`
  | test1 | report | wait1
  deriving DecidableEq, Repr

structure State where
  clientState : UInt8
  pc : Pc
  /-- `client` holds a connection. -/
  held : Bool
  /-- The daemon has not closed it. -/
  peerOpen : Bool
  /-- What the client has sent and the daemon has not received. -/
  up : List UInt8
  /-- What the daemon has sent and the client has not received. -/
  down : List UInt8
  unread : List UInt8
  /-- The daemon has received from this connection; it does so once. -/
  served : Bool
  cmdsts : ℕ
  /-- The strings that `readStringUntil` returned, and how often `stop()` was called. -/
  data : List (List UInt8)
  stops : ℕ
  deriving DecidableEq, Repr

/-- After `setup()`. -/
def State.init : State := ⟨0, .connect, false, false, [], [], [], false, 0, [], 0⟩

inductive Event
  /-- `loop()` executes its next statement, or tests its loop condition once more; the
  result of `connect`, and what the sensor returns. -/
  | loop (ok : Bool) (temp hum : Option ℤ)
  /-- The daemon receives and answers. -/
  | recv
  /-- The first `n` bytes under way arrive. -/
  | arrive (n : ℕ)
  /-- The daemon closes the connection, behind all that it has sent. -/
  | close
  deriving DecidableEq, Repr

/-! ### The client -/

def connected (s : State) : Bool := s.held && (s.peerOpen || !s.unread.isEmpty)

def available (s : State) : ℕ := if s.held then s.unread.length else 0

def print (bs : List UInt8) (s : State) : State := if s.held then { s with up := s.up ++ bs } else s

def stop (s : State) : State := { s with held := false, stops := s.stops + 1 }

/-- `data = client.readStringUntil('\n')`, and what the branch does where `data` is the word. -/
def readStringUntil (word : List UInt8) (clientState : UInt8) (s : State) : State :=
  let data := s.unread.takeWhile (· ≠ 10)
  let s := { s with data := s.data ++ [data], unread := (s.unread.dropWhile (· ≠ 10)).drop 1 }
  if data = word then stop { s with clientState } else s

/-- The end of `loop()`, where `client` is destroyed, and the beginning of the next one. -/
def return_ (s : State) : State := { s with held := false, pc := .connect }

/-- The next statement of `loop()`; prints to the serial line are left out. -/
def loop (ok : Bool) (temp hum : Option ℤ) (s : State) : State :=
  match s.pc with
  | .connect =>
    if ok then
      { s with pc := .test0, held := true, peerOpen := true,
               up := [], down := [], unread := [], served := false }
    else { s with pc := .test0, held := false }
  | .test0 => { s with pc := if s.clientState = 0 then .ask else .test1 }
  | .ask => { print DAEMON_ASK s with pc := .wait0 }
  -- `while(client.connected());`
  | .wait0 => if connected s then s else { s with pc := .lol }
  | .lol => { print LOL s with pc := .read0 }
  | .read0 => return_ (if 0 < available s then readStringUntil DHT_GET 1 s else s)
  | .test1 => if s.clientState = 1 then { s with pc := .report } else return_ s
  | .report => { print (report temp hum) s with pc := .wait1 }
  | .wait1 =>
    if connected s then if 0 < available s then readStringUntil OK 0 s else s
    else return_ s

/-! ### The daemon -/

/-- The body of `SocketCbk` on this connection. -/
def recv (s : State) : State :=
  let (cmdsts, rs) := Daemons.socketCbk s.cmdsts s.up
  { s with cmdsts, up := [], down := s.down ++ rs.flatMap Daemons.Reply.bytes, served := true }

def step (s : State) : Event → Option State
  | .loop ok temp hum => some (loop ok temp hum s)
  | .recv => if s.peerOpen ∧ s.served = false ∧ s.up ≠ [] then some (recv s) else none
  | .arrive n =>
    if s.held then some { s with unread := s.unread ++ s.down.take n, down := s.down.drop n } else none
  | .close => if s.peerOpen ∧ s.down = [] then some { s with peerOpen := false } else none

def machine : Machine State Event := ⟨.init, step⟩

/-- The daemon has answered `DAEMON_ASK`, on a connection that it keeps open. -/
def Answered (s : State) : Prop :=
  s.clientState = 0 ∧ s.pc = .wait0 ∧ s.held = true ∧ s.peerOpen = true ∧ s.unread ++ s.down = DHT_GET

/-- The answer is read, `ClientState` is 1 and the client was stopped. -/
def Done (s : State) : Prop := DHT_GET ∈ s.data ∧ s.clientState = 1 ∧ s.stops ≠ 0

/-- The run can be continued to the end of the exchange. -/
def Progresses (es : List Event) : Prop := ∃ fs s, machine.run machine.init (es ++ fs) = some s ∧ Done s

/-! ### The answer is never read -/

/-- Behind the empty loop the client has no connection, or a closed one and nothing to read. -/
def Gone (s : State) : Prop := s.held = false ∨ s.peerOpen = false ∧ s.unread = []

structure Inv (s : State) : Prop where
  clientState : s.clientState = 0
  data : s.data = []
  stops : s.stops = 0
  /-- What the daemon closes has delivered all. -/
  down : s.peerOpen = false → s.down = []
  pc : s.pc ∈ [.connect, .test0, .ask, .wait0, .lol, .read0]
  gone : s.pc = .lol ∨ s.pc = .read0 → Gone s

theorem gone_of_not_connected {s : State} (h : ¬ connected s = true) : Gone s := by
  by_cases hh : s.held = true
  · have hn := eq_false_of_ne_true h
    rw [connected, hh, Bool.true_and, Bool.or_eq_false_iff, Bool.not_eq_false', List.isEmpty_iff] at hn
    exact Or.inr hn
  · exact Or.inl (eq_false_of_ne_true hh)

theorem available_of_gone {s : State} (h : Gone s) : available s = 0 := by
  rcases h with h | ⟨-, h⟩
  · rw [available, h, if_neg Bool.false_ne_true]
  · rw [available, h, List.length_nil, ite_self]

theorem print_eq (bs : List UInt8) (s : State) : ∃ up, print bs s = { s with up } := by
  unfold print
  split
  · exact ⟨_, rfl⟩
  · exact ⟨s.up, rfl⟩

theorem inv_init : Inv machine.init where
  clientState := rfl
  data := rfl
  stops := rfl
  down _ := rfl
  pc := by decide
  gone hp := by rcases hp with hp | hp <;> cases hp

theorem inv_loop {s : State} (h : Inv s) (ok : Bool) (temp hum : Option ℤ) : Inv (loop ok temp hum s) := by
  obtain ⟨hc, hd, hs, hdown, hpc, hgone⟩ := h
  unfold loop
  simp only [List.mem_cons, List.not_mem_nil, or_false] at hpc
  rcases hpc with hpc | hpc | hpc | hpc | hpc | hpc
  · simp only [hpc]
    split
    · exact ⟨hc, hd, hs, fun _ => rfl, by simp, by simp⟩
    · exact ⟨hc, hd, hs, hdown, by simp, by simp⟩
  · simp only [hpc, if_pos hc]
    exact ⟨hc, hd, hs, hdown, by simp, by simp⟩
  · obtain ⟨up, hup⟩ := print_eq DAEMON_ASK s
    simp only [hpc, hup]
    exact ⟨hc, hd, hs, hdown, by simp, by simp⟩
  · -- the empty loop: it goes on, or there is nothing to read behind it
    simp only [hpc]
    split
    · exact ⟨hc, hd, hs, hdown, by simp [hpc], by simp [hpc]⟩
    · have hg : Gone s := gone_of_not_connected ‹_›
      exact ⟨hc, hd, hs, hdown, by simp, fun _ => hg⟩
  · obtain ⟨up, hup⟩ := print_eq LOL s
    simp only [hpc, hup]
    exact ⟨hc, hd, hs, hdown, by simp, fun _ => hgone (Or.inl hpc)⟩
  · simp only [hpc, available_of_gone (hgone (Or.inr hpc)), lt_irrefl, if_false]
    exact ⟨hc, hd, hs, hdown, by simp [return_], by simp [return_]⟩

theorem inv_step (s : State) (e : Event) (s' : State) (h : Inv s) (hs : machine.step s e = some s') :
    Inv s' := by
  cases e with
  | loop ok temp hum =>
    obtain rfl := Option.some.inj hs
    exact inv_loop h ok temp hum
  | recv =>
    obtain ⟨⟨hopen, -⟩, hs'⟩ := Option.ite_none_right_eq_some.mp hs
    obtain rfl := Option.some.inj hs'
    have hno : s.peerOpen ≠ false := ne_false_of_eq_true hopen
    exact ⟨h.clientState, h.data, h.stops, fun hc => absurd hc hno, h.pc, h.gone⟩
  | arrive n =>
    obtain ⟨-, hs'⟩ := Option.ite_none_right_eq_some.mp hs
    obtain rfl := Option.some.inj hs'
    -- nothing is under way from a daemon that has closed
    have hnone : s.peerOpen = false → s.unread ++ s.down.take n = s.unread ∧ s.down.drop n = [] := fun hc => by
      simp [h.down hc]
    refine ⟨h.clientState, h.data, h.stops, fun hc => (hnone hc).2, h.pc, fun hp => ?_⟩
    exact (h.gone hp).imp_right fun ⟨hc, hu⟩ => ⟨hc, (hnone hc).1.trans hu⟩
  | close =>
    obtain ⟨⟨-, hdown⟩, hs'⟩ := Option.ite_none_right_eq_some.mp hs
    obtain rfl := Option.some.inj hs'
    refine ⟨h.clientState, h.data, h.stops, fun _ => hdown, h.pc, fun hp => ?_⟩
    exact (h.gone hp).imp_right fun hu => ⟨rfl, hu.2⟩

theorem not_done {es : List Event} {s : State} (hrun : machine.run machine.init es = some s) : ¬ Done s := by
  rintro ⟨-, -, hstops⟩
  have hinv := machine.throughout_of_inv inv_step inv_init es
  exact hstops (machine.throughout_iff.mp hinv es [] s (List.append_nil es).symm hrun).stops

/-- **The exchange makes no progress.** No run comes to read an answer, to set
`ClientState` to 1 or to stop the client, whatever the daemon sends and whenever it
arrives. -/
theorem never_progresses (es : List Event) : ¬ Progresses es :=
  fun ⟨_, _, hrun, hdone⟩ => not_done hrun hdone

/-! ### The wait -/

/-- A test of the loop condition. -/
def poll : Event := .loop true none none

/-- A test of the empty loop on a connection changes nothing. -/
theorem poll_of_connected {s : State} (hpc : s.pc = .wait0) (hconn : connected s = true) :
    machine.step s poll = some s := by
  have hloop : loop true none none s = s := by
    simp only [loop, hpc, if_pos hconn]
  exact congrArg some hloop

theorem run_polls {s : State} (hpc : s.pc = .wait0) (hconn : connected s = true) (k : ℕ) (es : List Event) :
    machine.run s (List.replicate k poll ++ es) = machine.run s es := by
  induction k with
  | zero => rfl
  | succ k ih =>
    rw [List.replicate_succ, List.cons_append, Machine.run_cons, poll_of_connected hpc hconn,
      Option.bind_some, ih]

/-- The request, `k` polls, the answer of the daemon, and its arrival. -/
def exchange (k : ℕ) : List Event :=
  [poll, poll, poll] ++ (List.replicate k poll ++ [.recv, .arrive DHT_GET.length])

/-- The daemon answers after any number of polls. -/
theorem run_exchange (k : ℕ) : ∃ s, machine.run machine.init (exchange k) = some s ∧ Answered s := by
  have hask : machine.run machine.init (exchange k) =
      machine.run ⟨0, .wait0, true, true, DAEMON_ASK, [], [], false, 0, [], 0⟩
        (List.replicate k poll ++ [.recv, .arrive DHT_GET.length]) := rfl
  rw [hask, run_polls rfl rfl]
  exact ⟨⟨0, .wait0, true, true, [], [], DHT_GET, true, 0, [], 0⟩, by decide +kernel, rfl, rfl, rfl, rfl, rfl⟩

/-- An answer that comes after two polls is there to be read, and is not. -/
theorem answer_not_read : ¬ ∀ es s, machine.run machine.init es = some s → Answered s → Progresses es := by
  intro h
  obtain ⟨s, hrun, hans⟩ := run_exchange 2
  obtain ⟨fs, s', hrun', hdone⟩ := h (exchange 2) s hrun hans
  exact not_done hrun' hdone

end SketchFeb19a
end Netacademia
