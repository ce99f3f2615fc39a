/-
# The exchange of the firmware with its daemon

The firmware (`Firmware`), one TCP connection and the daemon of
`orai_munka/daemon.py` (`Daemons.socketCbk`), which accepts a connection,
receives once, replies and goes back to `accept`. The firmware opens one
connection and keeps it: `espconn_connect` on it again changes nothing. So the
daemon reads from it once. It reads the `DAEMON_ASK` and sends `DHT_GET`; the
report stays in its socket, and the client waits in state 2 for an `OK` that no
one will send (`socketCbk` could not send it either, its `cmdsts` stays 0).

* `wedged_iff_reported`: in every state of every run in which nothing is left
  to do, the client is out of state 0 exactly when it has reported.
* `wedged_after_report`: the exchange of one measurement.
-/
import Netacademia.DhtAlive
import Netacademia.Daemons

namespace Netacademia
namespace Exchange

open Lib Dht Firmware

/-- The connection, as the firmware sees it. -/
inductive Link
  | none | requested | established
  deriving DecidableEq, Repr

structure Sys where
  fw : Fw
  link : Link
  /-- Bytes sent to the daemon that have not arrived. -/
  toDaemon : List UInt8
  /-- Bytes in the daemon's socket. -/
  rx : List UInt8
  /-- Segments on their way to the firmware, one for each reply. -/
  toEsp : List (List UInt8)
  /-- The daemon has accepted the connection. -/
  accepted : Bool
  /-- The daemon is in `recv`, not in `accept`. -/
  receiving : Bool
  cmdsts : ℕ

inductive Event
  -- the sensor, and a reconnect callback
  | gpio (gpioStatus now now' : UInt32)
  | reconnCbk
  -- the firmware; `status` is what `espconn_send` returns, if it is called
  | tick
  | dispatch
  | exec (now : UInt32) (status : UInt8)
  | socketStarter
  | connCbk
  | recvCbk (stack : List UInt8)
  -- the network and the daemon
  | arrive (n : ℕ)
  | accept
  | recv (n : ℕ)

/-- The bytes a statement of the firmware hands to the connection. -/
def sent (s : Sys) (status : UInt8) : List UInt8 :=
  if s.link = .established ∧ status = 0 then
    ((s.fw.cont.head?.map (sends s.fw)).getD []).flatMap DaemonHandle.Send.bytes
  else []

/-- A step of the firmware alone. -/
def fwStep (s : Sys) (e : Firmware.Event) : Option Sys :=
  (Firmware.step s.fw e).map fun fw => { s with fw := fw }

/-- `recv(1024)` returns the `n` first bytes of the socket; the loop body answers. -/
def answered (s : Sys) (n : ℕ) : Sys :=
  let (cmdsts, rs) := Daemons.socketCbk s.cmdsts (s.rx.take n)
  { s with cmdsts := cmdsts, rx := s.rx.drop n, toEsp := s.toEsp ++ rs.map Daemons.Reply.bytes,
           receiving := false }

def step (s : Sys) : Event → Option Sys
  | .gpio gpioStatus now now' => fwStep s (.gpio gpioStatus now now')
  | .reconnCbk => if s.link = .none then none else fwStep s .reconnCbk
  | .tick => fwStep s .tick
  | .dispatch => fwStep s .dispatch
  | .exec now status => fwStep { s with toDaemon := s.toDaemon ++ sent s status } (.exec now)
  | .socketStarter => if s.link = .none then fwStep { s with link := .requested } .socketStarter else none
  | .connCbk => if s.link = .requested then fwStep { s with link := .established } .connCbk else none
  | .recvCbk stack =>
    match s.toEsp with
    | [] => none
    | pdata :: rest => fwStep { s with toEsp := rest } (.recvCbk pdata stack)
  | .arrive n =>
    if s.toDaemon ≠ [] ∧ 0 < n then
      some { s with toDaemon := s.toDaemon.drop n, rx := s.rx ++ s.toDaemon.take n }
    else none
  | .accept =>
    if s.link = .established ∧ s.accepted = false ∧ s.receiving = false then
      some { s with accepted := true, receiving := true }
    else none
  | .recv n => if s.receiving = true ∧ s.rx ≠ [] ∧ 0 < n ∧ n ≤ 1024 then some (answered s n) else none

def exchange : Machine Sys Event where
  init := { fw := firmware.init, link := .none, toDaemon := [], rx := [], toEsp := [],
            accepted := false, receiving := false, cmdsts := 0 }
  step := step

/-! ### Nothing left to do -/

/-- What a run is judged by: whether the last measurement was ended by a `COMPL`
dispatch, and whether `daemonRequest` has taken its report branch. -/
structure Past where
  ended : Bool
  reported : Bool

/-- The running task is about to take the report branch. -/
def reports (fw : Fw) : Bool :=
  match fw.cont with
  | .daemonRequest _ :: _ => fw.daemonSts == 1
  | _ => false

def past (p : Past) (s : Sys) : Event → Past
  | .exec now _ => ⟨DhtAlive.ended p.ended s.fw (.exec now), p.reported || reports s.fw⟩
  | _ => p

def exchangePast : Machine (Sys × Past) Event := exchange.history ⟨false, false⟩ past

/-- The steps of the sensor and of a failing link; all others are steps of the
two parties or deliver bytes. -/
def Event.outer : Event → Bool
  | .gpio _ _ _ | .reconnCbk => true
  | _ => false

/-- No party can take a step and every byte has arrived. -/
structure Still (s : Sys) : Prop where
  link : s.link = .established
  cont : s.fw.cont = []
  queue : s.fw.board.mainTaskQ = []
  timer : s.fw.board.dhtTimer = false
  toDaemon : s.toDaemon = []
  toEsp : s.toEsp = []
  accepted : s.accepted = true ∨ s.receiving = true
  received : s.receiving = true → s.rx = []

theorem step_of_still {s : Sys} (h : Still s) {e : Event} (he : e.outer = false) : step s e = none := by
  obtain ⟨h1, h2, h3, h4, h5, h6, h7, h8⟩ := h
  cases e with
  | gpio _ _ _ => cases he
  | reconnCbk => cases he
  | tick => simp [step, fwStep, Firmware.step, taskOf, h2, h4]
  | dispatch => simp [step, fwStep, Firmware.step, taskOf, h2, h3]
  | exec now status => simp [step, fwStep, Firmware.step, h2]
  | socketStarter => simp [step, h1]
  | connCbk => simp [step, h1]
  | recvCbk stack => simp [step, h6]
  | arrive n => simp [step, h5]
  | accept => rcases h7 with h7 | h7 <;> simp [step, h7]
  | recv n =>
    by_cases hr : s.receiving = true
    · simp [step, h8 hr]
    · simp [step, hr]

/-- `Still` says what it should: no step of a party, and no delivery, is enabled. -/
theorem still_iff (s : Sys) : Still s ↔ ∀ e : Event, e.outer = false → step s e = none := by
  refine ⟨fun h e he => step_of_still h he, fun h => ?_⟩
  have hcont : s.fw.cont = [] := by
    by_contra hc
    obtain ⟨c, rest, hc⟩ := List.exists_cons_of_ne_nil hc
    have := h (.exec 0 0) rfl
    simp [step, fwStep, Firmware.step, hc] at this
  have hlink : s.link = .established := by
    cases hl : s.link with
    | none =>
      have := h .socketStarter rfl
      simp [step, fwStep, Firmware.step, taskOf, hcont, hl] at this
    | requested =>
      have := h .connCbk rfl
      simp [step, fwStep, Firmware.step, taskOf, hcont, hl] at this
    | established => rfl
  refine ⟨hlink, hcont, ?_, ?_, ?_, ?_, ?_, ?_⟩
  · have := h .dispatch rfl
    cases hq : s.fw.board.mainTaskQ with
    | nil => rfl
    | cons p q => simp [step, fwStep, Firmware.step, taskOf, hcont, hq] at this
  · simpa [step, fwStep, Firmware.step, taskOf, hcont] using h .tick rfl
  · simpa [step] using h (.arrive 1) rfl
  · have := h (.recvCbk []) rfl
    cases ht : s.toEsp with
    | nil => rfl
    | cons p q => simp [step, fwStep, Firmware.step, taskOf, hcont, ht] at this
  · have := h .accept rfl
    simp only [step, hlink, true_and] at this
    by_contra hn
    simp only [not_or, Bool.not_eq_true] at hn
    simp [hn] at this
  · intro hr
    have := h (.recv 1) rfl
    simpa [step, hr] using this

/-- The state of a wedged exchange: the client is not in state 0, no measurement
is outstanding, and no one can take a step. -/
def Wedged (s : Sys × Past) : Prop := s.1.fw.daemonSts ≠ 0 ∧ s.2.ended = true ∧ Still s.1

instance : DecidablePred Still := fun s =>
  decidable_of_iff
    (s.link = .established ∧ s.fw.cont = [] ∧ s.fw.board.mainTaskQ = [] ∧ s.fw.board.dhtTimer = false ∧
      s.toDaemon = [] ∧ s.toEsp = [] ∧ (s.accepted = true ∨ s.receiving = true) ∧
      (s.receiving = true → s.rx = []))
    ⟨fun ⟨h1, h2, h3, h4, h5, h6, h7, h8⟩ => ⟨h1, h2, h3, h4, h5, h6, h7, h8⟩,
      fun ⟨h1, h2, h3, h4, h5, h6, h7, h8⟩ => ⟨h1, h2, h3, h4, h5, h6, h7, h8⟩⟩

instance : DecidablePred Wedged := fun s => inferInstanceAs (Decidable (_ ≠ _ ∧ _ ∧ Still s.1))

/-! ### What the two can say to each other -/

/-- The statements that change what the client has heard. -/
def hears : Stmt → Bool
  | .ifAnswer _ _ | .incDaemonSts | .clearDaemonSts => true
  | _ => false

def Deaf (cont : List Stmt) : Prop := ∀ c ∈ cont, hears c = false

instance : DecidablePred Deaf := fun cont => inferInstanceAs (Decidable (∀ c ∈ cont, hears c = false))

/-- The stages of the exchange: what is on its way to the firmware, what its
running task still does, its `daemonSts`, and the past. `opn`: the daemon may
still answer; `unlinked`: the connection is not yet established. -/
inductive Talk (opn unlinked : Bool) : List (List UInt8) → List Stmt → UInt8 → Past → Prop
  | starting (en : Bool) : unlinked = true → Talk opn unlinked [] [.clearDaemonSts] 0 ⟨en, false⟩
  | idle {cont : List Stmt} (en : Bool) : Deaf cont → Talk opn unlinked [] cont 0 ⟨en, false⟩
  | replied {cont : List Stmt} (en : Bool) : opn = false → Deaf cont →
      Talk opn unlinked [Daemons.Reply.dhtGet.bytes] cont 0 ⟨en, false⟩
  | got (stack : List UInt8) (en : Bool) : opn = false →
      Talk opn unlinked [] [.ifAnswer Daemons.Reply.dhtGet.bytes stack] 0 ⟨en, false⟩
  | counting (en : Bool) : opn = false → Talk opn unlinked [] (.incDaemonSts :: .io .callDhtStart :: dhtStart) 0 ⟨en, false⟩
  | measuring {cont : List Stmt} (en : Bool) : opn = false → Deaf cont →
      (en = false ∨ .setPrep ∈ cont ∨ ∃ pb, .daemonRequest pb ∈ cont) →
      Talk opn unlinked [] cont 1 ⟨en, false⟩
  | reported {cont : List Stmt} (en : Bool) : opn = false → Deaf cont →
      Talk opn unlinked [] cont 2 ⟨en, true⟩

def Sys.opn (s : Sys) : Bool := !s.accepted || s.receiving

def Sys.unlinked (s : Sys) : Bool := s.link != .established

structure Inv (s : Sys × Past) : Prop where
  talk : Talk s.1.opn s.1.unlinked s.1.toEsp s.1.fw.cont s.1.fw.daemonSts s.2
  cmdsts : s.1.cmdsts = 0
  linked : s.1.accepted = true → s.1.unlinked = false
  receiving : s.1.receiving = true → s.1.accepted = true

theorem inv_init : Inv exchangePast.init where
  talk := .idle false (by decide)
  cmdsts := rfl
  linked h := by cases h
  receiving h := by cases h

/-- Where nothing is left to do the client has reported, or it has heard nothing. -/
theorem inv_still {s : Sys × Past} (h : Inv s) (hen : s.2.ended = true) (hs : Still s.1) :
    s.1.fw.daemonSts ≠ 0 ↔ s.2.reported = true := by
  obtain ⟨s, p⟩ := s
  obtain ⟨ht, -, -, -⟩ := h
  obtain ⟨-, hc, -, -, -, he, -, -⟩ := hs
  simp only at ht hen hc he ⊢
  rw [hc, he] at ht
  generalize s.fw.daemonSts = sts at ht
  cases ht with
  | idle en _ => simp
  | measuring en _ _ hm => simp_all
  | reported en _ _ => simp

/-! ### The steps -/

section Steps

variable {opn unlinked : Bool} {toEsp : List (List UInt8)} {sts : UInt8} {p : Past}

/-- A task begins that hears nothing. -/
theorem talk_task {task : List Stmt} (h : Talk opn unlinked toEsp [] sts p) (ht : Deaf task) :
    Talk opn unlinked toEsp task sts p := by
  cases h with
  | idle en _ => exact .idle en ht
  | replied en ho _ => exact .replied en ho ht
  | measuring en ho _ hm => exact .measuring en ho ht (Or.inl (by simpa using hm))
  | reported en ho _ => exact .reported en ho ht

/-- A segment is handed to the firmware: it is the `DHT_GET`. -/
theorem talk_recv {pdata : List UInt8} {rest : List (List UInt8)} (stack : List UInt8)
    (h : Talk opn unlinked (pdata :: rest) [] sts p) :
    Talk opn unlinked rest [.ifAnswer pdata stack] sts p := by
  cases h with
  | replied en ho _ => exact .got stack en ho

/-- The daemon has received once and answers for the last time. -/
theorem talk_answer {cont : List Stmt} (h : Talk true false toEsp cont sts p) (data : List UInt8) :
    Talk false false (toEsp ++ ((Daemons.socketCbk 0 data).2.map Daemons.Reply.bytes)) cont sts p := by
  rw [Daemons.socketCbk_zero]
  cases h with
  | idle en hd =>
    split
    · exact .replied en rfl hd
    · exact .idle en hd
  | starting en hu => cases hu
  | replied en ho _ => cases ho
  | got stack en ho => cases ho
  | counting en ho => cases ho
  | measuring en ho _ _ => cases ho
  | reported en ho _ => cases ho

theorem deaf_exec (now : UInt32) (fw : Fw) {c : Stmt} (hc : hears c = false) : Deaf (exec now fw c).2 := by
  cases c with
  | ifTimeout => simp only [exec]; split <;> decide
  | switchState => simp only [exec]; cases fw.board.dhtHandle.state <;> decide
  | ifAnswer pdata stack => cases hc
  | _ => intro d hd; cases hd

/-- Of the statements that hear nothing only `daemonRequest` changes `daemonSts`. -/
theorem exec_daemonSts (now : UInt32) (fw : Fw) {c : Stmt} (hc : hears c = false)
    (hr : ∀ pb, c ≠ .daemonRequest pb) : (exec now fw c).1.daemonSts = fw.daemonSts := by
  cases c with
  | daemonRequest pb => exact absurd rfl (hr pb)
  | incDaemonSts => cases hc
  | clearDaemonSts => cases hc
  | _ => rfl

theorem deaf_tail {c : Stmt} {rest : List Stmt} (now : UInt32) (fw : Fw) (h : Deaf (c :: rest)) :
    Deaf ((exec now fw c).2 ++ rest) := by
  intro d hd
  rcases List.mem_append.mp hd with hd | hd
  · exact deaf_exec now fw (h c List.mem_cons_self) d hd
  · exact h d (List.mem_cons_of_mem _ hd)

theorem reports_of_ne {fw : Fw} (h : fw.daemonSts ≠ 1) : reports fw = false := by
  unfold reports
  split
  · simpa using h
  · rfl

/-- Outside of state 1 a statement that hears nothing leaves `daemonSts` alone. -/
theorem exec_daemonSts_of_ne (now : UInt32) {fw : Fw} {c : Stmt} (hc : hears c = false)
    (h : fw.daemonSts ≠ 1) : (exec now fw c).1.daemonSts = fw.daemonSts := by
  by_cases hr : ∃ pb, c = .daemonRequest pb
  · obtain ⟨pb, rfl⟩ := hr
    exact DaemonHandle.daemonRequest_sts_of_ne _ h
  · exact exec_daemonSts now fw hc fun pb he => hr ⟨pb, he⟩

/-- In state 1 the measurement is still to come, or its report is next. -/
theorem talk_measuring {fw : Fw} {c : Stmt} {rest : List Stmt} (now : UInt32) (hc : fw.cont = c :: rest)
    (hs : fw.daemonSts = 1) {en : Bool} (ho : opn = false) (hd : Deaf (c :: rest))
    (hm : en = false ∨ .setPrep ∈ c :: rest ∨ ∃ pb, .daemonRequest pb ∈ c :: rest) :
    Talk opn unlinked [] ((exec now fw c).2 ++ rest) (exec now fw c).1.daemonSts
      ⟨DhtAlive.ended en fw (.exec now), false || reports fw⟩ := by
  have hd' := deaf_tail now fw hd
  by_cases hr : ∃ pb, c = .daemonRequest pb
  · -- the report branch
    obtain ⟨pb, rfl⟩ := hr
    have h2 : (exec now fw (.daemonRequest pb)).1.daemonSts = 2 := by
      simp [exec, hs, DaemonHandle.daemonRequest_one]
    have hrep : reports fw = true := by simp [reports, hc, hs]
    rw [h2, hrep]
    exact .reported _ ho hd'
  · have hne : ∀ pb, c ≠ .daemonRequest pb := fun pb he => hr ⟨pb, he⟩
    have hrep : reports fw = false := by
      unfold reports
      rw [hc]
      cases c with
      | daemonRequest pb => exact absurd rfl (hne pb)
      | _ => rfl
    rw [exec_daemonSts now fw (hd c List.mem_cons_self) hne, hs, hrep]
    refine .measuring _ ho hd' ?_
    rcases hm with rfl | hm | ⟨pb, hm⟩
    · -- only the `COMPL` branch of mainTask ends a measurement, and it calls `daemonRequest`
      simp only [DhtAlive.ended, hc]
      cases c with
      | switchState =>
        cases hst : fw.board.dhtHandle.state with
        | compl => exact Or.inr (Or.inr ⟨true, by simp [exec, hst, mainTaskCase]⟩)
        | _ => exact Or.inl (by simp)
      | _ => exact Or.inl rfl
    · rcases List.mem_cons.mp hm with rfl | hm
      · exact Or.inl (by simp [DhtAlive.ended, hc])
      · exact Or.inr (Or.inl (List.mem_append_right _ hm))
    · rcases List.mem_cons.mp hm with he | hm
      · exact absurd he.symm (hne pb)
      · exact Or.inr (Or.inr ⟨pb, List.mem_append_right _ hm⟩)

/-- A statement of the running task. -/
theorem talk_exec {fw : Fw} {c : Stmt} {rest : List Stmt} (now : UInt32) (hc : fw.cont = c :: rest)
    (h : Talk opn unlinked toEsp (c :: rest) fw.daemonSts p) :
    Talk opn unlinked toEsp ((exec now fw c).2 ++ rest) (exec now fw c).1.daemonSts
      ⟨DhtAlive.ended p.ended fw (.exec now), p.reported || reports fw⟩ := by
  generalize hs : fw.daemonSts = sts at h
  cases h with
  | starting en hu =>
    rw [reports_of_ne (by rw [hs]; decide)]
    exact .idle _ (by simp [Deaf, exec])
  | idle en hd =>
    have h1 : fw.daemonSts ≠ 1 := by rw [hs]; decide
    rw [exec_daemonSts_of_ne now (hd c List.mem_cons_self) h1, hs, reports_of_ne h1]
    exact .idle _ (deaf_tail now fw hd)
  | replied en ho hd =>
    have h1 : fw.daemonSts ≠ 1 := by rw [hs]; decide
    rw [exec_daemonSts_of_ne now (hd c List.mem_cons_self) h1, hs, reports_of_ne h1]
    exact .replied _ ho (deaf_tail now fw hd)
  | got stack en ho =>
    have ha : DaemonHandle.answer Daemons.Reply.dhtGet.bytes stack = .dhtGet :=
      DaemonHandle.answer_of_dhtGet stack (by decide) (List.infix_refl _)
    rw [reports_of_ne (by rw [hs]; decide)]
    simp only [exec, ha, hs]
    exact .counting _ ho
  | counting en ho =>
    rw [reports_of_ne (by rw [hs]; decide)]
    simp only [exec, hs, List.nil_append]
    exact .measuring _ ho (by decide) (Or.inr (Or.inl (by decide)))
  | measuring en ho hd hm => exact talk_measuring now hc hs ho hd hm
  | reported en ho hd =>
    have h1 : fw.daemonSts ≠ 1 := by rw [hs]; decide
    rw [exec_daemonSts_of_ne now (hd c List.mem_cons_self) h1, hs, reports_of_ne h1]
    exact .reported _ ho (deaf_tail now fw hd)

end Steps

/-- A step of the firmware alone: the handler, the begin of a task or a statement. -/
theorem fwStep_cases {s s' : Sys} {e : Firmware.Event} (h : fwStep s e = some s') :
    (∃ gs n n', e = .gpio gs n n' ∧
      s' = { s with fw := { s.fw with board := dhtGpioCbk gs n n' s.fw.board } }) ∨
    (∃ b task, taskOf s.fw.board e = some (b, task) ∧ s.fw.cont = [] ∧
      s' = { s with fw := { s.fw with board := b, cont := task } }) ∨
    (∃ now c rest, e = .exec now ∧ s.fw.cont = c :: rest ∧
      s' = { s with fw := { (exec now s.fw c).1 with cont := (exec now s.fw c).2 ++ rest } }) := by
  obtain ⟨fw, hf, rfl⟩ := Option.map_eq_some_iff.mp h
  rcases step_cases hf with ⟨gs, n, n', he, -, rfl⟩ | ⟨b, task, ht, hc, rfl⟩ | ⟨now, c, rest, he, hc, rfl⟩
  · exact Or.inl ⟨gs, n, n', he, rfl⟩
  · exact Or.inr (Or.inl ⟨b, task, ht, hc, rfl⟩)
  · exact Or.inr (Or.inr ⟨now, c, rest, he, hc, rfl⟩)

/-- An event that begins a task. -/
theorem fwStep_begin {s s' : Sys} {e : Firmware.Event} (h : fwStep s e = some s')
    (hg : ∀ gs n n', e ≠ .gpio gs n n') (he : ∀ now, e ≠ .exec now) :
    ∃ b task, taskOf s.fw.board e = some (b, task) ∧ s.fw.cont = [] ∧
      s' = { s with fw := { s.fw with board := b, cont := task } } := by
  rcases fwStep_cases h with ⟨gs, n, n', rfl, -⟩ | h | ⟨now, c, rest, rfl, -, -⟩
  · exact absurd rfl (hg gs n n')
  · exact h
  · exact absurd rfl (he now)

/-- A timer tick, a dispatch and the connection callbacks begin tasks that hear nothing. -/
theorem inv_begin {s s' : Sys} {p : Past} (h : Inv (s, p)) {e : Firmware.Event}
    (he : e = .tick ∨ e = .dispatch ∨ e = .connCbk ∨ e = .reconnCbk) (hs : fwStep s e = some s') :
    Inv (s', p) := by
  obtain ⟨b, task, ht, hc, rfl⟩ := fwStep_begin hs
    (by rcases he with rfl | rfl | rfl | rfl <;> nofun) (by rcases he with rfl | rfl | rfl | rfl <;> nofun)
  have hd : Deaf task := by
    rcases he with rfl | rfl | rfl | rfl
    · simp only [taskOf] at ht
      split at ht <;> cases ht
      decide
    · simp only [taskOf] at ht
      split at ht <;> cases ht
      rename_i q _ _
      cases q <;> decide
    · cases ht; decide
    · cases ht; decide
  have htalk : Talk s.opn s.unlinked s.toEsp [] s.fw.daemonSts p := hc ▸ h.talk
  exact ⟨talk_task htalk hd, h.cmdsts, h.linked, h.receiving⟩

/-- The daemon's side of a connection is used only once it is established. -/
theorem linked_step {s : Sys × Past} (h : Inv s) : s.1.unlinked = true → s.1.accepted = false := by
  intro hu
  by_contra ha
  simp [h.linked (by simpa using ha)] at hu

/-- No reply is on its way before the daemon has accepted. -/
theorem talk_open {toEsp : List (List UInt8)} {cont : List Stmt} {sts : UInt8} {p : Past} {unlinked : Bool}
    (h : Talk true unlinked toEsp cont sts p) : toEsp = [] ∧ sts = 0 ∧ p.reported = false := by
  cases h with
  | starting en _ => exact ⟨rfl, rfl, rfl⟩
  | idle en _ => exact ⟨rfl, rfl, rfl⟩
  | replied en ho _ => cases ho
  | got stack en ho => cases ho
  | counting en ho => cases ho
  | measuring en ho _ _ => cases ho
  | reported en ho _ => cases ho

/-- Before the connection is established nothing has been said. -/
theorem unlinked_facts {s : Sys} {p : Past} (h : Inv (s, p)) (hu : s.unlinked = true) :
    s.accepted = false ∧ s.toEsp = [] ∧ s.fw.daemonSts = 0 ∧ p = ⟨p.ended, false⟩ := by
  have ha : s.accepted = false := linked_step h hu
  have hopn : s.opn = true := by simp [Sys.opn, ha]
  obtain ⟨he, h0, hp⟩ := talk_open (hopn ▸ h.talk)
  obtain ⟨en, rep⟩ := p
  exact ⟨ha, he, h0, congrArg (Past.mk en) hp⟩

theorem inv_socketStarter {s s' : Sys} {p : Past} (h : Inv (s, p)) (hl : s.link = .none)
    (hs : fwStep { s with link := .requested } .socketStarter = some s') : Inv (s', p) := by
  obtain ⟨b, task, ht, hc, rfl⟩ := fwStep_begin hs nofun nofun
  cases ht
  obtain ⟨ha, he, h0, hp⟩ := unlinked_facts h (by simp [Sys.unlinked, hl])
  refine ⟨?_, h.cmdsts, fun h' => ?_, h.receiving⟩
  · simp only
    rw [he, h0, hp]
    exact .starting p.ended rfl
  · simp [ha] at h'

theorem inv_connCbk {s s' : Sys} {p : Past} (h : Inv (s, p)) (hl : s.link = .requested)
    (hs : fwStep { s with link := .established } .connCbk = some s') : Inv (s', p) := by
  obtain ⟨b, task, ht, hc, rfl⟩ := fwStep_begin hs nofun nofun
  cases ht
  obtain ⟨-, he, h0, hp⟩ := unlinked_facts h (by simp [Sys.unlinked, hl])
  refine ⟨?_, h.cmdsts, fun _ => rfl, h.receiving⟩
  simp only
  rw [he, h0, hp]
  exact .idle p.ended (by decide)

theorem inv_recvCbk {s s' : Sys} {p : Past} (h : Inv (s, p)) {pdata : List UInt8}
    {rest : List (List UInt8)} (stack : List UInt8) (ht : s.toEsp = pdata :: rest)
    (hs : fwStep { s with toEsp := rest } (.recvCbk pdata stack) = some s') : Inv (s', p) := by
  obtain ⟨b, task, htask, hc, rfl⟩ := fwStep_begin hs nofun nofun
  cases htask
  have htalk : Talk s.opn s.unlinked (pdata :: rest) [] s.fw.daemonSts p := ht ▸ hc ▸ h.talk
  exact ⟨talk_recv stack htalk, h.cmdsts, h.linked, h.receiving⟩

theorem inv_accept {s : Sys} {p : Past} (h : Inv (s, p)) (hl : s.link = .established)
    (ha : s.accepted = false) : Inv ({ s with accepted := true, receiving := true }, p) := by
  have hopn : s.opn = true := by simp [Sys.opn, ha]
  refine ⟨?_, h.cmdsts, fun _ => by simp [Sys.unlinked, hl], fun _ => rfl⟩
  have htalk : Talk true s.unlinked s.toEsp s.fw.cont s.fw.daemonSts p := hopn ▸ h.talk
  exact htalk

theorem inv_recv {s : Sys} {p : Past} (h : Inv (s, p)) (hr : s.receiving = true) (n : ℕ) :
    Inv (answered s n, p) := by
  have ha : s.accepted = true := h.receiving hr
  have hu : s.unlinked = false := h.linked ha
  have h0 : s.cmdsts = 0 := h.cmdsts
  have hopn : s.opn = true := by simp [Sys.opn, hr]
  have htalk : Talk true false s.toEsp s.fw.cont s.fw.daemonSts p := hopn ▸ hu ▸ h.talk
  have hopn' : (answered s n).opn = false := by simp [answered, Sys.opn, ha]
  have hu' : (answered s n).unlinked = false := hu
  refine ⟨?_, ?_, fun _ => hu, nofun⟩
  · rw [hopn', hu']
    simp only [answered, h0]
    exact talk_answer htalk _
  · simp [answered, h0, Daemons.socketCbk_zero]

theorem inv_gpio {s s' : Sys} {p : Past} {gs n n' : UInt32} (h : Inv (s, p))
    (hs : fwStep s (.gpio gs n n') = some s') : Inv (s', p) := by
  rcases fwStep_cases hs with ⟨_, _, _, -, rfl⟩ | ⟨b, task, ht, -, -⟩ | ⟨_, _, _, he, -, -⟩
  · exact ⟨h.talk, h.cmdsts, h.linked, h.receiving⟩
  · cases ht
  · cases he

/-- A statement of the running task, with the bytes it hands to the connection. -/
theorem inv_exec {s s' : Sys} {p : Past} {now : UInt32} {status : UInt8} (h : Inv (s, p))
    (hs : step s (.exec now status) = some s') : Inv (s', past p s (.exec now status)) := by
  rcases fwStep_cases hs with ⟨_, _, _, he, -⟩ | ⟨b, task, ht, -, -⟩ | ⟨_, c, rest, he, hc, rfl⟩
  · cases he
  · cases ht
  · cases he
    have htalk : Talk s.opn s.unlinked s.toEsp (c :: rest) s.fw.daemonSts p := hc ▸ h.talk
    exact ⟨talk_exec now hc htalk, h.cmdsts, h.linked, h.receiving⟩

theorem inv_step (s : Sys × Past) (e : Event) (s' : Sys × Past) (h : Inv s)
    (hstep : exchangePast.step s e = some s') : Inv s' := by
  obtain ⟨s, p⟩ := s
  obtain ⟨s', p'⟩ := s'
  obtain ⟨hs, rfl⟩ : step s e = some s' ∧ p' = past p s e := Machine.history_step.mp hstep
  cases e with
  | gpio gs n n' => exact inv_gpio h hs
  | reconnCbk =>
    simp only [step] at hs
    split at hs
    · cases hs
    · exact inv_begin h (by simp) hs
  | tick => exact inv_begin h (by simp) hs
  | dispatch => exact inv_begin h (by simp) hs
  | exec now status => exact inv_exec h hs
  | socketStarter =>
    simp only [step] at hs
    split at hs
    · exact inv_socketStarter h ‹_› hs
    · cases hs
  | connCbk =>
    simp only [step] at hs
    split at hs
    · exact inv_connCbk h ‹_› hs
    · cases hs
  | recvCbk stack =>
    simp only [step] at hs
    split at hs
    · cases hs
    · exact inv_recvCbk h stack ‹_› hs
  | arrive n =>
    simp only [step] at hs
    split at hs
    · cases hs
      exact ⟨h.talk, h.cmdsts, h.linked, h.receiving⟩
    · cases hs
  | accept =>
    simp only [step] at hs
    split at hs
    · rename_i hl
      cases hs
      exact inv_accept h hl.1 hl.2.1
    · cases hs
  | recv n =>
    simp only [step] at hs
    split at hs
    · rename_i hr
      cases hs
      exact inv_recv h hr.1 n
    · cases hs

/-! ### When the exchange is wedged -/

theorem inv_run (es : List Event) : exchangePast.Throughout Inv exchangePast.init es :=
  exchangePast.throughout_of_inv inv_step inv_init es

/-- **What wedges the exchange.** In every state of every run: the exchange is
wedged if and only if nothing is left to do and the client has reported. -/
theorem wedged_iff_reported (es : List Event) :
    exchangePast.Throughout
      (fun s => Wedged s ↔ s.2.ended = true ∧ Still s.1 ∧ s.2.reported = true) exchangePast.init es := by
  refine (inv_run es).mono _ fun s h => ⟨?_, ?_⟩
  · rintro ⟨h0, hen, hs⟩
    exact ⟨hen, hs, (inv_still h hen hs).mp h0⟩
  · rintro ⟨hen, hs, hr⟩
    exact ⟨(inv_still h hen hs).mpr hr, hen, hs⟩

/-- The step does not execute a `daemonRequest` in state 1. -/
def NoReport (s : Sys × Past) : Event → Prop
  | .exec _ _ => reports s.1.fw = false
  | _ => True

instance : ∀ s e, Decidable (NoReport s e)
  | s, .exec _ _ => inferInstanceAs (Decidable (reports s.1.fw = false))
  | _, .gpio _ _ _ | _, .reconnCbk | _, .tick | _, .dispatch | _, .socketStarter | _, .connCbk | _, .recvCbk _
  | _, .arrive _ | _, .accept | _, .recv _ => isTrue trivial

/-- The client has not reported. -/
def Unreported (s : Sys × Past) : Prop := Inv s ∧ s.2.reported = false

theorem unreported_step : exchangePast.Preserves Unreported NoReport := by
  rintro s e s' ⟨hi, hr⟩ hn hs
  refine ⟨inv_step s e s' hi hs, ?_⟩
  obtain ⟨-, hp⟩ := Machine.history_step.mp hs
  rw [hp]
  cases e with
  | exec now status =>
    have hn : reports s.1.fw = false := hn
    simp [past, hr, hn]
  | _ => exact hr

/-- **Without a report nothing is wedged.** -/
theorem not_wedged_along (es : List Event) (h : exchangePast.Along NoReport exchangePast.init es) :
    exchangePast.Throughout (fun s => ¬ Wedged s) exchangePast.init es :=
  (exchangePast.throughout_of_along unreported_step ⟨inv_init, rfl⟩ h).mono _ fun s ⟨hi, hr⟩ ⟨h0, hen, hs⟩ =>
    absurd ((inv_still hi hen hs).mp h0) (by simp [hr])

/-- A statement of the running task; `espconn_send` accepts what it is given. -/
def stmt : Event := .exec 0 0

/-- The connection is opened and asked on, and the daemon answers. -/
def asked : List Event :=
  .replicate 9 stmt ++ [.socketStarter, stmt, .connCbk, stmt, .arrive 10, .accept, .recv 1024]

/-- The answer starts a measurement, which ends. -/
def measurement : List Event :=
  .recvCbk [] :: .replicate 11 stmt ++ .tick :: .replicate 14 stmt ++ List.replicate 42 (.gpio dhtPinBit 50 0) ++
    .dispatch :: .replicate 3 stmt

/-- The theorem on a run up to the report. -/
theorem not_wedged_along_measurement :
    exchangePast.Throughout (fun s => ¬ Wedged s) exchangePast.init (asked ++ measurement) :=
  not_wedged_along _ (by decide +kernel)

/-- The report goes out and arrives, and the exchange is wedged. -/
theorem wedged_after_report :
    ¬ exchangePast.Throughout (fun s => ¬ Wedged s) exchangePast.init
      (asked ++ measurement ++ [stmt, .arrive 4]) := by
  decide +kernel

end Exchange
end Netacademia
