/-
# The Arduino sketch and its daemon

`development/server.ino/server.ino.ino` and `ReadSocket` of
`development/server.py`. `loop()` opens a connection and takes the branch of
`ClientState`: in state 0 it sends `DAEMON_ASK` and waits for `DHT_GET`, in
state 2 it sends the reading and waits for `OK`. It leaves a wait only when the
connection is gone. The daemon serves one `recv` of each connection, and closes
it when it accepts the next one. The timer callback `heartBeat` clears
`ClientState` at any time.

Connections are numbered in the order they are made, which is the order they
are accepted in; a message is what one `print` or `send` writes, and is read
whole.

* `agree_iff`: the daemon's flag and the client agree throughout a run exactly
  when no `heartBeat` comes while the client owes the report.
* `no_deadlock_iff`: without `heartBeat`, no run is deadlocked exactly as long
  as the client does not read the `OK`; its branch lacks the `client.stop()`.
-/
import Mathlib.Logic.Function.Basic
import Netacademia.Lib.Machine
import Netacademia.Daemons

namespace Netacademia
namespace Sketch

open Lib
open Daemons (DAEMON_ASK DHT_GET OK)

/-- `String(x)` of a float in hundredths, or of NaN. -/
def floatText : Option ℤ → List Char
  | none => ['n', 'a', 'n']
  | some n =>
    (if n < 0 then ['-'] else []) ++ decimal (n.natAbs / 100) ++
      '.' :: decimal (n.natAbs / 10 % 10) ++ decimal (n.natAbs % 10)

/-- `String("TEMP:" + temp + String(" ") + String("HUM:") + hum)` -/
def report (temp hum : Option ℤ) : List UInt8 :=
  ascii (['T', 'E', 'M', 'P', ':'] ++ floatText temp ++ [' '] ++ ['H', 'U', 'M', ':'] ++ floatText hum)

/-- The next statement of `loop()`. -/
inductive Pc
  | connect
  -- `ClientState == 0`
  | test0 | ask | wait0 | stop0
  -- `ClientState == 2`
  | test2 | report | wait2
  -- `ClientState == 3`
  | test3 | wait3
  -- `ClientState == 5`
  | test5 | stop5 | clear
  deriving DecidableEq, Repr

structure Sys where
  clientState : UInt8
  pc : Pc
  /-- The connection `client` holds. -/
  cur : Option ℕ
  /-- The number of connections made. -/
  made : ℕ
  /-- The messages sent on a connection and not yet read, to the daemon and to the client. -/
  up : ℕ → List (List UInt8)
  down : ℕ → List (List UInt8)
  /-- The number of connections accepted; `self.conn` is the last of them. -/
  accepted : ℕ
  /-- The daemon is in `recv`, not in `accept`. -/
  receiving : Bool
  cmdsts : ℕ

inductive Event
  /-- `loop()` executes its next statement; `ok` is the result of `connect`, the
  reading is what the sensor returns. -/
  | loop (ok : Bool) (temp hum : Option ℤ)
  | heartBeat
  | accept
  | recv

/-! ### The client -/

/-- `client.connected()`: held, and not closed by the daemon, or with unread data. -/
def connected (s : Sys) : Bool :=
  match s.cur with
  | none => false
  | some c => !decide (c + 1 < s.accepted) || !(s.down c).isEmpty

/-- `client.print(data)` -/
def print (data : List UInt8) (s : Sys) : Sys :=
  match s.cur with
  | none => s
  | some c => { s with up := Function.update s.up c (s.up c ++ [data]) }

/-- One round of `while (client.connected())`; a round without data changes nothing. -/
def wait (handle : List UInt8 → Sys → Sys) (s : Sys) : Option Sys :=
  if connected s then
    match s.cur with
    | none => none
    | some c =>
      match s.down c with
      | [] => none
      | data :: rest => some (handle data { s with down := Function.update s.down c rest })
  else some { s with pc := .connect }

/-- The next statement of `loop()`; prints are left out. -/
def loop (ok : Bool) (temp hum : Option ℤ) (s : Sys) : Option Sys :=
  match s.pc with
  | .connect =>
    -- an open connection is dropped first
    if ok then
      some { s with cur := some s.made, made := s.made + 1, pc := .test0,
                    up := Function.update s.up s.made [], down := Function.update s.down s.made [] }
    else some { s with cur := none, pc := .test0 }
  | .test0 => some { s with pc := if s.clientState = 0 then .ask else .test2 }
  | .ask => some { print DAEMON_ASK s with pc := .wait0 }
  | .wait0 => wait (fun data s => if data = DHT_GET then { s with clientState := 2, pc := .stop0 } else s) s
  | .stop0 => some { s with cur := none, pc := .wait0 }
  | .test2 => some { s with pc := if s.clientState = 2 then .report else .test3 }
  | .report => some { print (report temp hum) s with pc := .wait2 }
  | .wait2 => wait (fun data s => if data = OK then { s with clientState := 5 } else s) s
  | .test3 => some { s with pc := if s.clientState = 3 then .wait3 else .test5 }
  | .wait3 => wait (fun data s => if data = OK then { s with clientState := 5 } else s) s
  | .test5 => some { s with pc := if s.clientState = 5 then .stop5 else .connect }
  | .stop5 => some { s with cur := none, pc := .clear }
  | .clear => some { s with clientState := 0, pc := .connect }

/-! ### The daemon -/

/-- `self.conn, self.addr = self.esp_s_handler.accept()` -/
def accept (s : Sys) : Option Sys :=
  if s.receiving = false ∧ s.accepted < s.made then
    some { s with accepted := s.accepted + 1, receiving := true }
  else none

/-- The loop body after `recv` on connection `c`. -/
def readSocket (c : ℕ) (data : List UInt8) (rest : List (List UInt8)) (s : Sys) : Sys :=
  let (cmdsts, rs) := Daemons.readSocket s.cmdsts data
  { s with cmdsts := cmdsts, up := Function.update s.up c rest,
           down := Function.update s.down c (s.down c ++ rs.map Daemons.Reply.bytes), receiving := false }

/-- `recv` returns a message, or the empty string when the client has dropped the connection. -/
def recv (s : Sys) : Option Sys :=
  match s.receiving, s.accepted with
  | true, c + 1 =>
    match s.up c with
    | data :: rest => some (readSocket c data rest s)
    | [] => if s.cur = some c then none else some (readSocket c [] [] s)
  | _, _ => none

def step (s : Sys) : Event → Option Sys
  | .loop ok temp hum => loop ok temp hum s
  | .heartBeat => some { s with clientState := 0 }
  | .accept => accept s
  | .recv => recv s

def init : Sys where
  clientState := 0
  pc := .connect
  cur := none
  made := 0
  up _ := []
  down _ := []
  accepted := 0
  receiving := false
  cmdsts := 0

/-- The sketch and its daemon. -/
def sketch : Machine Sys Event := ⟨init, step⟩

/-- The same with `heartBeat` never firing. -/
def steady : Machine Sys Event where
  init := init
  step s
    | .heartBeat => none
    | e => step s e

/-! ### Agreement and deadlock -/

/-- A `DHT_GET` is on its way to the client. -/
def DhtGetInFlight (s : Sys) : Prop := ∃ c ∈ s.cur, DHT_GET ∈ s.down c

/-- A `TEMP` message is on its way to the daemon, on a connection it will read or is reading. -/
def TempInFlight (s : Sys) : Prop :=
  ∃ c < s.made, (s.accepted ≤ c ∨ s.accepted = c + 1 ∧ s.receiving = true) ∧
    ∃ m ∈ s.up c, occurs Daemons.TEMP m = true

/-- The daemon waits for a report only if one is to come. -/
def Agree (s : Sys) : Prop :=
  s.cmdsts = 1 → DhtGetInFlight s ∨ s.clientState = 2 ∨ TempInFlight s

/-- The client waits on a connection on which nothing is under way, and the
daemon, which holds it, waits for another. -/
def Deadlock (s : Sys) : Prop :=
  s.pc ∈ [.wait0, .wait2, .wait3] ∧ ∃ c ∈ s.cur, connected s = true ∧ s.down c = [] ∧ s.up c = [] ∧
    s.accepted = c + 1 ∧ s.receiving = false ∧ s.made = s.accepted

/-- A `heartBeat` finds no report that the client owes and has not sent. -/
def ReportSafe (s : Sys) : Event → Prop
  | .heartBeat => s.clientState = 2 → s.cmdsts = 1 → TempInFlight s
  | _ => True

/-- The client is about to read an `OK` in the wait of state 2. -/
def ReadsOk (s : Sys) : Prop := s.pc = .wait2 ∧ ∃ c ∈ s.cur, (s.down c).head? = some OK

/-- The step does not read the `OK`. -/
def NotOk (s : Sys) : Event → Prop
  | .loop _ _ _ => ¬ ReadsOk s
  | _ => True

instance : DecidablePred DhtGetInFlight := fun s =>
  inferInstanceAs (Decidable (∃ c ∈ s.cur, DHT_GET ∈ s.down c))

instance : DecidablePred TempInFlight := fun s =>
  inferInstanceAs (Decidable (∃ c < s.made, _ ∧ ∃ m ∈ s.up c, occurs Daemons.TEMP m = true))

instance : DecidablePred Agree := fun s => inferInstanceAs (Decidable (s.cmdsts = 1 → _))

instance : DecidablePred Deadlock := fun s => inferInstanceAs (Decidable (_ ∧ ∃ c ∈ s.cur, _))

/-! ### The phases -/

/-- The client holds connection `c`, the last one; the messages under way on it. -/
structure On (c : ℕ) (up down : List (List UInt8)) (s : Sys) : Prop where
  cur : s.cur = some c
  made : s.made = c + 1
  up : s.up c = up
  down : s.down c = down

/-- The client holds no connection, and the daemon has received from all of them. -/
structure Off (s : Sys) : Prop where
  cur : s.cur = none
  made : s.made = s.accepted
  receiving : s.receiving = false

/-- The daemon has not yet received from connection `c`, the next one. -/
def Awaits (c : ℕ) (s : Sys) : Prop :=
  s.accepted = c ∧ s.receiving = false ∨ s.accepted = c + 1 ∧ s.receiving = true

/-- The daemon has received from connection `c`, the last one. -/
structure Served (c : ℕ) (s : Sys) : Prop where
  accepted : s.accepted = c + 1
  receiving : s.receiving = false

/-- The phases of a measurement, up to the `OK`. -/
inductive Phase (s : Sys) : Prop
  | idle : Off s → s.pc ∈ [.connect, .test0, .ask, .wait0] → s.clientState = 0 → s.cmdsts = 0 → Phase s
  | asking (c : ℕ) : On c [] [] s → Awaits c s → s.pc ∈ [.test0, .ask] → s.clientState = 0 →
      s.cmdsts = 0 → Phase s
  | asked (c : ℕ) : On c [DAEMON_ASK] [] s → Awaits c s → s.pc = .wait0 → s.clientState = 0 →
      s.cmdsts = 0 → Phase s
  | requested (c : ℕ) : On c [] [DHT_GET] s → Served c s → s.pc = .wait0 → s.clientState = 0 →
      s.cmdsts = 1 → Phase s
  | stopping (c : ℕ) : On c [] [] s → Served c s → s.pc = .stop0 → s.clientState = 2 →
      s.cmdsts = 1 → Phase s
  | owing : Off s → s.pc ∈ [.wait0, .connect, .test0, .test2, .report, .wait2] → s.clientState = 2 →
      s.cmdsts = 1 → Phase s
  | reporting (c : ℕ) : On c [] [] s → Awaits c s → s.pc ∈ [.test0, .test2, .report] →
      s.clientState = 2 → s.cmdsts = 1 → Phase s
  | reported (c : ℕ) (m : List UInt8) : On c [m] [] s → occurs Daemons.TEMP m = true → Awaits c s →
      s.pc = .wait2 → s.cmdsts = 1 → Phase s
  | acked (c : ℕ) : On c [] [OK] s → Served c s → s.pc = .wait2 → s.cmdsts = 0 → Phase s

/-- After the `OK` was read. -/
inductive Stuck (s : Sys) : Prop
  | intro (c : ℕ) : On c [] [] s → Served c s → s.pc = .wait2 → s.cmdsts = 0 → Stuck s

theorem phase_init : Phase init := .idle ⟨rfl, rfl, rfl⟩ (by decide) rfl rfl

section Facts

variable {s s' : Sys} {c : ℕ} {up down : List (List UInt8)}

theorem on_cur {d : ℕ} (h : On c up down s) (hd : d ∈ s.cur) : d = c := by
  simpa [h.cur, eq_comm] using hd

theorem connected_of_awaits (h : On c up down s) (ha : Awaits c s) : connected s = true := by
  unfold connected
  rw [h.cur]
  rcases ha with ⟨ha, -⟩ | ⟨ha, -⟩ <;> simp [ha]

theorem connected_of_served (h : On c up down s) (hs : Served c s) : connected s = true := by
  unfold connected
  simp [h.cur, hs.accepted]

theorem connected_of_off (h : Off s) : connected s = false := by
  unfold connected
  rw [h.cur]

/-- A wait on an open connection reads the next message, if there is one. -/
theorem wait_on {handle : List UInt8 → Sys → Sys} (h : On c up down s) (hc : connected s = true)
    (hw : wait handle s = some s') : ∃ data rest, down = data :: rest ∧
      s' = handle data { s with down := Function.update s.down c rest } := by
  simp only [wait, hc, if_true, h.cur, h.down] at hw
  cases down with
  | nil => cases hw
  | cons data rest => exact ⟨data, rest, rfl, by rw [← Option.some.inj hw]; simp only [h.cur]⟩

theorem wait_off {handle : List UInt8 → Sys → Sys} (h : Off s) (hw : wait handle s = some s') :
    s' = { s with pc := .connect } := by
  simpa [wait, connected_of_off h] using hw.symm

theorem print_off (h : Off s) (data : List UInt8) : print data s = s := by
  unfold print
  rw [h.cur]

theorem print_on (h : On c up down s) (data : List UInt8) :
    print data s = { s with up := Function.update s.up c (up ++ [data]) } := by
  unfold print
  rw [h.cur, ← h.up]

theorem accept_awaits (h : Awaits c s) (ha : accept s = some s') :
    s' = { s with accepted := c + 1, receiving := true } := by
  simp only [accept] at ha
  split at ha
  · rename_i hc
    rcases h with ⟨h, -⟩ | ⟨-, h⟩
    · rw [← Option.some.inj ha, h]
    · simp [h] at hc
  · cases ha

theorem not_accept (h : s.made ≤ s.accepted) : accept s = none := by
  simp only [accept]
  exact if_neg fun ⟨_, h'⟩ => by omega

theorem not_recv (h : s.receiving = false) : recv s = none := by
  simp [recv, h]

/-- The daemon receives on the connection that the client holds. -/
theorem recv_awaits (h : On c up down s) (ha : Awaits c s) (hr : recv s = some s') :
    s.accepted = c + 1 ∧ ∃ data rest, up = data :: rest ∧ s' = readSocket c data rest s := by
  rcases ha with ⟨-, ha⟩ | ⟨ha, hre⟩
  · simp [not_recv ha] at hr
  · simp only [recv, ha, hre, h.up, h.cur] at hr
    cases up with
    | nil => simp at hr
    | cons data rest => exact ⟨ha, data, rest, rfl, (Option.some.inj hr).symm⟩

theorem tempInFlight_of_on {m : List UInt8} (h : On c [m] down s) (ha : Awaits c s)
    (hm : occurs Daemons.TEMP m = true) : TempInFlight s := by
  refine ⟨c, by simp [h.made], ?_, m, by simp [h.up], hm⟩
  rcases ha with ⟨ha, -⟩ | ha
  · exact Or.inl ha.le
  · exact Or.inr ha

theorem not_tempInFlight_of_received (hm : s.made ≤ s.accepted) (hr : s.receiving = false) :
    ¬ TempInFlight s := by
  rintro ⟨d, hd, h | ⟨-, h⟩, -⟩
  · omega
  · simp [hr] at h

theorem not_tempInFlight_of_empty (h : On c [] down s) (ha : Awaits c s) : ¬ TempInFlight s := by
  rintro ⟨d, hd, hd', m, hm, -⟩
  have hdc : d = c := by
    have := h.made
    rcases ha with ⟨ha, hr⟩ | ⟨ha, -⟩
    · rcases hd' with hd' | ⟨-, hr'⟩
      · omega
      · simp [hr] at hr'
    · omega
  simp [hdc, h.up] at hm

theorem occurs_temp_report (temp hum : Option ℤ) : occurs Daemons.TEMP (report temp hum) = true := by
  rw [occurs_iff]
  exact (List.prefix_append (ascii ['T', 'E', 'M', 'P']) _).isInfix

end Facts

/-! ### The steps -/

theorem phase_heartBeat {s : Sys} (h : Phase s) (hr : ReportSafe s .heartBeat) :
    Phase { s with clientState := 0 } := by
  cases h with
  | idle ho hp hc hd => exact .idle ⟨ho.cur, ho.made, ho.receiving⟩ hp rfl hd
  | asking c hon ha hp hc hd => exact .asking c ⟨hon.cur, hon.made, hon.up, hon.down⟩ ha hp rfl hd
  | asked c hon ha hp hc hd => exact .asked c ⟨hon.cur, hon.made, hon.up, hon.down⟩ ha hp rfl hd
  | requested c hon hs hp hc hd =>
    exact .requested c ⟨hon.cur, hon.made, hon.up, hon.down⟩ ⟨hs.accepted, hs.receiving⟩ hp rfl hd
  | stopping c hon hs hp hc hd =>
    exact absurd (hr hc hd) (not_tempInFlight_of_received (by rw [hon.made, hs.accepted]) hs.receiving)
  | owing ho hp hc hd => exact absurd (hr hc hd) (not_tempInFlight_of_received ho.made.le ho.receiving)
  | reporting c hon ha hp hc hd => exact absurd (hr hc hd) (not_tempInFlight_of_empty hon ha)
  | reported c m hon hm ha hp hd => exact .reported c m ⟨hon.cur, hon.made, hon.up, hon.down⟩ hm ha hp hd
  | acked c hon hs hp hd =>
    exact .acked c ⟨hon.cur, hon.made, hon.up, hon.down⟩ ⟨hs.accepted, hs.receiving⟩ hp hd

theorem phase_accept {s s' : Sys} (h : Phase s) (hs : accept s = some s') : Phase s' := by
  cases h with
  | idle ho _ _ _ => simp [not_accept ho.made.le] at hs
  | owing ho _ _ _ => simp [not_accept ho.made.le] at hs
  | asking c hon ha hp hc hd =>
    rw [accept_awaits ha hs]
    exact .asking c ⟨hon.cur, hon.made, hon.up, hon.down⟩ (Or.inr ⟨rfl, rfl⟩) hp hc hd
  | asked c hon ha hp hc hd =>
    rw [accept_awaits ha hs]
    exact .asked c ⟨hon.cur, hon.made, hon.up, hon.down⟩ (Or.inr ⟨rfl, rfl⟩) hp hc hd
  | reporting c hon ha hp hc hd =>
    rw [accept_awaits ha hs]
    exact .reporting c ⟨hon.cur, hon.made, hon.up, hon.down⟩ (Or.inr ⟨rfl, rfl⟩) hp hc hd
  | reported c m hon hm ha hp hd =>
    rw [accept_awaits ha hs]
    exact .reported c m ⟨hon.cur, hon.made, hon.up, hon.down⟩ hm (Or.inr ⟨rfl, rfl⟩) hp hd
  | requested c hon hv _ _ _ => simp [not_accept (by rw [hon.made, hv.accepted])] at hs
  | stopping c hon hv _ _ _ => simp [not_accept (by rw [hon.made, hv.accepted])] at hs
  | acked c hon hv _ _ => simp [not_accept (by rw [hon.made, hv.accepted])] at hs

/-- What `readSocket` leaves on the connection. -/
theorem on_readSocket {s : Sys} {c : ℕ} {up down : List (List UInt8)} (h : On c up down s)
    (ha : s.accepted = c + 1) (data : List UInt8) (rest : List (List UInt8)) :
    On c rest (down ++ (Daemons.readSocket s.cmdsts data).2.map Daemons.Reply.bytes)
        (readSocket c data rest s) ∧ Served c (readSocket c data rest s) := by
  refine ⟨⟨h.cur, h.made, ?_, ?_⟩, ⟨ha, rfl⟩⟩
  · exact Function.update_self ..
  · simp [readSocket, h.down]

theorem phase_recv {s s' : Sys} (h : Phase s) (hs : recv s = some s') : Phase s' := by
  cases h with
  | idle ho _ _ _ => simp [not_recv ho.receiving] at hs
  | owing ho _ _ _ => simp [not_recv ho.receiving] at hs
  | requested c hon hv _ _ _ => simp [not_recv hv.receiving] at hs
  | stopping c hon hv _ _ _ => simp [not_recv hv.receiving] at hs
  | acked c hon hv _ _ => simp [not_recv hv.receiving] at hs
  | asking c hon ha _ _ _ =>
    obtain ⟨-, _, _, he, -⟩ := recv_awaits hon ha hs
    cases he
  | reporting c hon ha _ _ _ =>
    obtain ⟨-, _, _, he, -⟩ := recv_awaits hon ha hs
    cases he
  | asked c hon ha hp hc hd =>
    -- the daemon answers `DAEMON_ASK`
    obtain ⟨hacc, _, _, he, rfl⟩ := recv_awaits hon ha hs
    cases he
    obtain ⟨hon', hv⟩ := on_readSocket hon hacc DAEMON_ASK []
    have hr : Daemons.readSocket s.cmdsts DAEMON_ASK = (1, [.dhtGet]) := by rw [hd]; decide
    rw [hr] at hon'
    exact .requested c hon' hv hp hc (by simp [readSocket, hr])
  | reported c m hon hm ha hp hd =>
    -- the daemon answers the report
    obtain ⟨hacc, _, _, he, rfl⟩ := recv_awaits hon ha hs
    cases he
    obtain ⟨hon', hv⟩ := on_readSocket hon hacc m []
    have hr : Daemons.readSocket s.cmdsts m = (0, [.ok]) := by simp [hd, Daemons.readSocket_one, hm]
    rw [hr] at hon'
    exact .acked c hon' hv hp (by simp [readSocket, hr])

/-- `connect` on a client without a connection. -/
theorem connect_off {s s' : Sys} {ok : Bool} {temp hum : Option ℤ} (ho : Off s) (hp : s.pc = .connect)
    (hs : loop ok temp hum s = some s') :
    s'.pc = .test0 ∧ s'.clientState = s.clientState ∧ s'.cmdsts = s.cmdsts ∧
      (Off s' ∨ ∃ c, On c [] [] s' ∧ Awaits c s') := by
  simp only [loop, hp] at hs
  split at hs
  · cases hs
    refine ⟨rfl, rfl, rfl, Or.inr ⟨s.made, ⟨rfl, rfl, ?_, ?_⟩, Or.inl ⟨ho.made.symm, ho.receiving⟩⟩⟩
    · exact Function.update_self ..
    · exact Function.update_self ..
  · cases hs
    exact ⟨rfl, rfl, rfl, Or.inl ⟨rfl, ho.made, ho.receiving⟩⟩

theorem phase_loop_idle {s s' : Sys} {ok : Bool} {temp hum : Option ℤ} (ho : Off s)
    (hp : s.pc ∈ [.connect, .test0, .ask, .wait0]) (hc : s.clientState = 0) (hd : s.cmdsts = 0)
    (hs : loop ok temp hum s = some s') : Phase s' := by
  simp only [List.mem_cons, List.not_mem_nil, or_false] at hp
  rcases hp with hp | hp | hp | hp
  · obtain ⟨hp', hc', hd', ho' | ⟨c, hon, ha⟩⟩ := connect_off ho hp hs
    · exact .idle ho' (by simp [hp']) (hc'.trans hc) (hd'.trans hd)
    · exact .asking c hon ha (by simp [hp']) (hc'.trans hc) (hd'.trans hd)
  · simp only [loop, hp, hc, if_true, Option.some.injEq] at hs
    rw [← hs]
    exact .idle ⟨ho.cur, ho.made, ho.receiving⟩ (by simp) rfl hd
  · simp only [loop, hp, print_off ho, Option.some.injEq] at hs
    rw [← hs]
    exact .idle ⟨ho.cur, ho.made, ho.receiving⟩ (by simp) hc hd
  · simp only [loop, hp] at hs
    rw [wait_off ho hs]
    exact .idle ⟨ho.cur, ho.made, ho.receiving⟩ (by simp) hc hd

theorem phase_loop_owing {s s' : Sys} {ok : Bool} {temp hum : Option ℤ} (ho : Off s)
    (hp : s.pc ∈ [.wait0, .connect, .test0, .test2, .report, .wait2]) (hc : s.clientState = 2)
    (hd : s.cmdsts = 1) (hs : loop ok temp hum s = some s') : Phase s' := by
  simp only [List.mem_cons, List.not_mem_nil, or_false] at hp
  rcases hp with hp | hp | hp | hp | hp | hp
  · simp only [loop, hp] at hs
    rw [wait_off ho hs]
    exact .owing ⟨ho.cur, ho.made, ho.receiving⟩ (by simp) hc hd
  · obtain ⟨hp', hc', hd', ho' | ⟨c, hon, ha⟩⟩ := connect_off ho hp hs
    · exact .owing ho' (by simp [hp']) (hc'.trans hc) (hd'.trans hd)
    · exact .reporting c hon ha (by simp [hp']) (hc'.trans hc) (hd'.trans hd)
  · simp only [loop, hp, Option.some.injEq] at hs
    rw [← hs]
    exact .owing ⟨ho.cur, ho.made, ho.receiving⟩ (by simp [hc]) hc hd
  · simp only [loop, hp, hc, if_true, Option.some.injEq] at hs
    rw [← hs]
    exact .owing ⟨ho.cur, ho.made, ho.receiving⟩ (by simp) rfl hd
  · simp only [loop, hp, print_off ho, Option.some.injEq] at hs
    rw [← hs]
    exact .owing ⟨ho.cur, ho.made, ho.receiving⟩ (by simp) hc hd
  · simp only [loop, hp] at hs
    rw [wait_off ho hs]
    exact .owing ⟨ho.cur, ho.made, ho.receiving⟩ (by simp) hc hd

theorem phase_loop {s s' : Sys} {ok : Bool} {temp hum : Option ℤ} (h : Phase s) (hr : ¬ ReadsOk s)
    (hs : loop ok temp hum s = some s') : Phase s' := by
  cases h with
  | idle ho hp hc hd => exact phase_loop_idle ho hp hc hd hs
  | owing ho hp hc hd => exact phase_loop_owing ho hp hc hd hs
  | asking c hon ha hp hc hd =>
    simp only [List.mem_cons, List.not_mem_nil, or_false] at hp
    rcases hp with hp | hp
    · simp only [loop, hp, hc, if_true, Option.some.injEq] at hs
      rw [← hs]
      exact .asking c ⟨hon.cur, hon.made, hon.up, hon.down⟩ ha (by simp) rfl hd
    · simp only [loop, hp, print_on hon, Option.some.injEq] at hs
      rw [← hs]
      exact .asked c ⟨hon.cur, hon.made, Function.update_self .., hon.down⟩ ha rfl hc hd
  | asked c hon ha hp hc hd =>
    simp only [loop, hp] at hs
    obtain ⟨_, _, he, -⟩ := wait_on hon (connected_of_awaits hon ha) hs
    cases he
  | requested c hon hv hp hc hd =>
    simp only [loop, hp] at hs
    obtain ⟨_, _, he, rfl⟩ := wait_on hon (connected_of_served hon hv) hs
    cases he
    exact .stopping c ⟨hon.cur, hon.made, hon.up, Function.update_self ..⟩ ⟨hv.accepted, hv.receiving⟩ rfl rfl hd
  | stopping c hon hv hp hc hd =>
    simp only [loop, hp, Option.some.injEq] at hs
    rw [← hs]
    exact .owing ⟨rfl, by rw [hon.made, hv.accepted], hv.receiving⟩ (by simp) hc hd
  | reporting c hon ha hp hc hd =>
    simp only [List.mem_cons, List.not_mem_nil, or_false] at hp
    rcases hp with hp | hp | hp
    · simp only [loop, hp, Option.some.injEq] at hs
      rw [← hs]
      exact .reporting c ⟨hon.cur, hon.made, hon.up, hon.down⟩ ha (by simp [hc]) hc hd
    · simp only [loop, hp, hc, if_true, Option.some.injEq] at hs
      rw [← hs]
      exact .reporting c ⟨hon.cur, hon.made, hon.up, hon.down⟩ ha (by simp) rfl hd
    · simp only [loop, hp, print_on hon, Option.some.injEq] at hs
      rw [← hs]
      exact .reported c _ ⟨hon.cur, hon.made, Function.update_self .., hon.down⟩ (occurs_temp_report temp hum)
        ha rfl hd
  | reported c m hon hm ha hp hd =>
    simp only [loop, hp] at hs
    obtain ⟨_, _, he, -⟩ := wait_on hon (connected_of_awaits hon ha) hs
    cases he
  | acked c hon hv hp hd => exact absurd ⟨hp, c, hon.cur, by simp [hon.down]⟩ hr

/-- The client reads an `OK` only as the answer to its report. -/
theorem acked_of_readsOk {s : Sys} (h : Phase s) (hr : ReadsOk s) :
    ∃ c, On c [] [OK] s ∧ Served c s ∧ s.cmdsts = 0 := by
  obtain ⟨hp, d, hd, hh⟩ := hr
  cases h with
  | acked c hon hv _ hd => exact ⟨c, hon, hv, hd⟩
  | owing ho _ _ _ => simp [ho.cur] at hd
  | reported c m hon _ _ _ _ =>
    rw [on_cur hon hd, hon.down] at hh
    cases hh
  | idle _ hp' _ _ => simp [hp] at hp'
  | asking _ _ _ hp' _ _ => simp [hp] at hp'
  | reporting _ _ _ hp' _ _ => simp [hp] at hp'
  | asked _ _ _ hp' _ _ => simp [hp] at hp'
  | requested _ _ _ hp' _ _ => simp [hp] at hp'
  | stopping _ _ _ hp' _ _ => simp [hp] at hp'

/-- Reading the `OK` leaves the client in its wait. -/
theorem stuck_of_readsOk {s s' : Sys} {ok : Bool} {temp hum : Option ℤ} (h : Phase s) (hr : ReadsOk s)
    (hs : loop ok temp hum s = some s') : Stuck s' := by
  obtain ⟨c, hon, hv, hd⟩ := acked_of_readsOk h hr
  simp only [loop, hr.1] at hs
  obtain ⟨_, _, he, rfl⟩ := wait_on hon (connected_of_served hon hv) hs
  cases he
  exact ⟨c, ⟨hon.cur, hon.made, hon.up, Function.update_self ..⟩, ⟨hv.accepted, hv.receiving⟩, hr.1, hd⟩

/-- There only `heartBeat` can come. -/
theorem stuck_step {s s' : Sys} {e : Event} (h : Stuck s) (hs : step s e = some s') : Stuck s' := by
  obtain ⟨c, hon, hv, hp, hd⟩ := h
  cases e with
  | loop ok temp hum =>
    simp only [step, loop, hp] at hs
    obtain ⟨_, _, he, -⟩ := wait_on hon (connected_of_served hon hv) hs
    cases he
  | heartBeat =>
    cases hs
    exact ⟨c, ⟨hon.cur, hon.made, hon.up, hon.down⟩, ⟨hv.accepted, hv.receiving⟩, hp, hd⟩
  | accept => simp [step, not_accept (by rw [hon.made, hv.accepted])] at hs
  | recv => simp [step, not_recv hv.receiving] at hs

/-- The steps of a measurement. -/
theorem phase_step {s s' : Sys} {e : Event} (h : Phase s) (hb : ReportSafe s e) (hr : NotOk s e)
    (hs : step s e = some s') : Phase s' := by
  cases e with
  | loop ok temp hum => exact phase_loop h hr hs
  | heartBeat =>
    cases hs
    exact phase_heartBeat h hb
  | accept => exact phase_accept h hs
  | recv => exact phase_recv h hs

/-! ### The two agree -/

theorem agree_of_phase {s : Sys} (h : Phase s) : Agree s := by
  intro h1
  cases h with
  | requested c hon _ _ _ _ => exact Or.inl ⟨c, hon.cur, by simp [hon.down]⟩
  | stopping _ _ _ _ hc _ => exact Or.inr (Or.inl hc)
  | owing _ _ hc _ => exact Or.inr (Or.inl hc)
  | reporting _ _ _ _ hc _ => exact Or.inr (Or.inl hc)
  | reported c m hon hm ha _ _ => exact Or.inr (Or.inr (tempInFlight_of_on hon ha hm))
  | idle _ _ _ hd => simp [hd] at h1
  | asking _ _ _ _ _ hd => simp [hd] at h1
  | asked _ _ _ _ _ hd => simp [hd] at h1
  | acked _ _ _ _ hd => simp [hd] at h1

theorem agree_of_stuck {s : Sys} (h : Stuck s) : Agree s := by
  obtain ⟨_, _, _, _, hd⟩ := h
  intro h1
  simp [hd] at h1

theorem not_dhtGetInFlight_of_on {s : Sys} {c : ℕ} {up : List (List UInt8)} (h : On c up [] s) :
    ¬ DhtGetInFlight s := by
  rintro ⟨d, hcur, hm⟩
  rw [on_cur h hcur, h.down] at hm
  cases hm

/-- No `DHT_GET` is on its way to a client that owes the report. -/
theorem not_dhtGetInFlight {s : Sys} (h : Phase s) (hc : s.clientState = 2) (hd : s.cmdsts = 1) :
    ¬ DhtGetInFlight s := by
  cases h with
  | stopping c hon _ _ _ _ => exact not_dhtGetInFlight_of_on hon
  | reporting c hon _ _ _ _ => exact not_dhtGetInFlight_of_on hon
  | reported c m hon _ _ _ _ => exact not_dhtGetInFlight_of_on hon
  | owing ho _ _ _ =>
    rintro ⟨d, hcur, -⟩
    simp [ho.cur] at hcur
  | requested _ _ _ _ hc' _ => simp [hc] at hc'
  | idle _ _ _ hd' => simp [hd] at hd'
  | asking _ _ _ _ _ hd' => simp [hd] at hd'
  | asked _ _ _ _ _ hd' => simp [hd] at hd'
  | acked _ _ _ _ hd' => simp [hd] at hd'

theorem inv_step : sketch.Preserves (fun s => Phase s ∨ Stuck s) ReportSafe := by
  rintro s e s' (h | h) hb hs
  · by_cases hr : NotOk s e
    · exact Or.inl (phase_step h hb hr hs)
    · cases e with
      | loop ok temp hum => exact Or.inr (stuck_of_readsOk h (not_not.mp hr) hs)
      | _ => exact absurd trivial hr
  · exact Or.inr (stuck_step h hs)

/-- A `heartBeat` that finds a report owed takes the client's side of the agreement away. -/
theorem not_agree_step (s : Sys) (e : Event) (s' : Sys) (h : Phase s ∨ Stuck s) (hb : ¬ ReportSafe s e)
    (hs : sketch.step s e = some s') : ¬ Agree s' := by
  cases e with
  | heartBeat =>
    cases hs
    simp only [ReportSafe, Classical.not_imp] at hb
    obtain ⟨hc, hd, ht⟩ := hb
    rcases h with h | ⟨_, _, _, _, hd'⟩
    · intro ha
      rcases ha hd with hg | hc' | ht'
      · exact not_dhtGetInFlight h hc hd hg
      · cases hc'
      · exact ht ht'
    · simp [hd] at hd'
  | _ => exact absurd trivial hb

/-- **When the daemon and the client agree.** Whenever the daemon waits for a
report one is to come, throughout a run, if and only if every `heartBeat` of
the run finds the report sent or none owed. -/
theorem agree_iff (es : List Event) :
    sketch.Throughout Agree sketch.init es ↔ sketch.Along ReportSafe sketch.init es :=
  sketch.throughout_iff_along (fun _ h => h.elim agree_of_phase agree_of_stuck) inv_step not_agree_step
    (Or.inl phase_init) es

/-- A measurement up to the answered request. -/
def asked : List Event :=
  [.loop true none none, .loop true none none, .loop true none none, .accept, .recv, .loop true none none]

/-- The `heartBeat` comes when the `DHT_GET` was read: no report will come. -/
theorem heartBeat_loses_report :
    ¬ sketch.Throughout Agree sketch.init (asked ++ [.heartBeat]) := by decide +kernel

/-! ### The cycle deadlocks -/

theorem steady_step {s s' : Sys} {e : Event} (h : steady.step s e = some s') :
    step s e = some s' ∧ ReportSafe s e := by
  cases e with
  | heartBeat => cases h
  | _ => exact ⟨h, trivial⟩

/-- A message under way on the connection is no deadlock. -/
theorem not_deadlock_of_on {s : Sys} {c : ℕ} {up down : List (List UInt8)} (h : On c up down s)
    (hm : up ≠ [] ∨ down ≠ []) : ¬ Deadlock s := by
  rintro ⟨-, d, hcur, -, hdown, hup, -⟩
  rw [on_cur h hcur] at hdown hup
  rcases hm with hm | hm
  · exact hm (h.up.symm.trans hup)
  · exact hm (h.down.symm.trans hdown)

theorem not_deadlock_of_off {s : Sys} (h : Off s) : ¬ Deadlock s := by
  rintro ⟨-, d, hcur, -⟩
  simp [h.cur] at hcur

theorem not_deadlock_of_phase (s : Sys) (h : Phase s) : ¬ Deadlock s := by
  cases h with
  | idle ho _ _ _ => exact not_deadlock_of_off ho
  | owing ho _ _ _ => exact not_deadlock_of_off ho
  | asked c hon _ _ _ _ => exact not_deadlock_of_on hon (Or.inl (by simp))
  | reported c m hon _ _ _ _ => exact not_deadlock_of_on hon (Or.inl (by simp))
  | requested c hon _ _ _ _ => exact not_deadlock_of_on hon (Or.inr (by simp))
  | acked c hon _ _ _ => exact not_deadlock_of_on hon (Or.inr (by simp))
  -- in the others the client is not in a wait
  | asking _ _ _ hp _ _ =>
    rintro ⟨hw, -⟩
    simp only [List.mem_cons, List.not_mem_nil, or_false] at hp hw
    rcases hp with hp | hp <;> simp [hp] at hw
  | reporting _ _ _ hp _ _ =>
    rintro ⟨hw, -⟩
    simp only [List.mem_cons, List.not_mem_nil, or_false] at hp hw
    rcases hp with hp | hp | hp <;> simp [hp] at hw
  | stopping _ _ _ hp _ _ =>
    rintro ⟨hw, -⟩
    simp [hp] at hw

theorem deadlock_of_stuck {s : Sys} (h : Stuck s) : Deadlock s := by
  obtain ⟨c, hon, hv, hp, -⟩ := h
  exact ⟨by simp [hp], c, hon.cur, connected_of_served hon hv, hon.down, hon.up, hv.accepted, hv.receiving,
    by rw [hon.made, hv.accepted]⟩

theorem steady_preserves : steady.Preserves Phase NotOk := by
  intro s e s' h hr hs
  obtain ⟨hs, hb⟩ := steady_step hs
  exact phase_step h hb hr hs

theorem deadlock_step (s : Sys) (e : Event) (s' : Sys) (h : Phase s) (hr : ¬ NotOk s e)
    (hs : steady.step s e = some s') : ¬ ¬ Deadlock s' := by
  cases e with
  | loop ok temp hum => exact not_not.mpr (deadlock_of_stuck (stuck_of_readsOk h (not_not.mp hr) hs))
  | _ => exact absurd trivial hr

/-- **When the cycle does not deadlock.** A run without `heartBeat` passes no
deadlock if and only if the client does not read the `OK` in it. -/
theorem no_deadlock_iff (es : List Event) :
    steady.Throughout (fun s => ¬ Deadlock s) steady.init es ↔ steady.Along NotOk steady.init es :=
  steady.throughout_iff_along not_deadlock_of_phase steady_preserves deadlock_step phase_init es

/-- The first measurement is answered, and its client never leaves the wait. -/
theorem deadlock_after_ok :
    ¬ steady.Throughout (fun s => ¬ Deadlock s) steady.init
      (asked ++ List.replicate 6 (.loop true (some 2150) (some 4300)) ++
        [.accept, .recv, .loop true none none]) := by decide +kernel

end Sketch
end Netacademia
