/-
# Which readings are published

A frame that fails the checksum test of `dhtProcess` should start the
measurement again: `dhtProcess` sets `ERR` and posts. But it goes on to store
the values, and its caller `dhtGpioCbk` then sets `COMPL` and posts once more.
mainTask reads the state when it is dispatched, so it finds `COMPL` and
publishes the bad reading.

* `published_along`: in a run whose captures all pass the test, every reading
  mainTask formats was stored by a frame that passed.
* `bad_frame_published`: a capture that fails while no task runs is published by
  the next dispatch, from any state.
-/
import Netacademia.Firmware

namespace Netacademia
namespace DhtPublish

open Lib Dht Firmware

/-- The test on the capture that the interrupt ends. -/
def passes (now now' : UInt32) (b : Board) : Bool := parityOk (record now now' b).dhtResult

/-- Where the values of `DhtHandle` come from: nowhere yet, or a frame that
passed or failed the test. -/
def stored (st : Option Bool) (s : Fw) : Event → Option Bool
  | .gpio gpioStatus now now' => if lastEdge gpioStatus s.board then some (passes now now' s.board) else st
  | _ => st

/-- The firmware with the origin of its reading. -/
def sourced : Machine (Fw × Option Bool) Event := firmware.history none stored

/-- The statements of the `COMPL` branch that format the reading. -/
def formats : Stmt → Bool
  | .sprintfHum | .sprintfTemp => true
  | _ => false

/-- mainTask formats only a reading whose frame passed. -/
def PublishedOk (s : Fw × Option Bool) : Prop :=
  (s.1.cont.head?.any formats) = true → s.2 = some true

/-- A capture that ends passes the test. -/
def FramePasses (s : Fw × Option Bool) : Event → Prop
  | .gpio gpioStatus now now' => lastEdge gpioStatus s.1.board = true → passes now now' s.1.board = true
  | _ => True

instance : DecidablePred PublishedOk := fun s =>
  inferInstanceAs (Decidable (_ = true → s.2 = some true))

instance : ∀ s e, Decidable (FramePasses s e)
  | _, .gpio _ _ _ => instDecidableForall
  | _, .tick | _, .dispatch | _, .socketStarter | _, .connCbk | _, .reconnCbk | _, .recvCbk _ _ | _, .exec _ =>
    isTrue trivial

/-! ### The invariant -/

/-- `COMPL`, and a reading to be formatted, mean a frame that passed. -/
structure Inv (s : Fw × Option Bool) : Prop where
  compl : s.1.board.dhtHandle.state = .compl → s.2 = some true
  formats : ∀ c ∈ s.1.cont, formats c = true → s.2 = some true

theorem inv_init : Inv sourced.init where
  compl h := by cases h
  formats := by decide

theorem inv_publishedOk (s : Fw × Option Bool) (h : Inv s) : PublishedOk s := by
  intro hc
  cases hl : s.1.cont with
  | nil => simp [hl] at hc
  | cons c rest => exact h.formats c (by simp [hl]) (by simpa [hl] using hc)

theorem inv_gpio {s : Fw × Option Bool} (h : Inv s) (gs n n' : UInt32)
    (hk : FramePasses s (.gpio gs n n')) :
    Inv ({ s.1 with board := dhtGpioCbk gs n n' s.1.board }, stored s.2 s.1 (.gpio gs n n')) := by
  cases hl : lastEdge gs s.1.board with
  | true =>
    have hst : stored s.2 s.1 (.gpio gs n n') = some true := by simp [stored, hl, hk hl]
    exact ⟨fun _ => hst, fun _ _ _ => hst⟩
  | false =>
    obtain ⟨hst, -, -⟩ := dhtGpioCbk_of_not_last s.1.board gs n n' hl
    have hs : stored s.2 s.1 (.gpio gs n n') = s.2 := by simp [stored, hl]
    rw [hs]
    exact ⟨fun he => by simp [hst] at he, h.formats⟩

/-- A task begins with nothing to format. -/
theorem task_formats {b b' : Board} {e : Event} {task : List Stmt} (h : taskOf b e = some (b', task)) :
    ∀ c ∈ task, formats c = false := by
  rcases taskOf_cases h with ⟨-, -, -, rfl⟩ | ⟨p, q, -, -, -, rfl⟩ | ⟨-, rfl | rfl | ⟨_, _, rfl⟩⟩
  · decide
  · cases p <;> decide
  · decide
  · decide
  · simp [formats]

theorem inv_begin {s : Fw × Option Bool} (h : Inv s) {e : Event} {b : Board} {task : List Stmt}
    (ht : taskOf s.1.board e = some (b, task)) :
    Inv ({ s.1 with board := b, cont := task }, s.2) := by
  refine ⟨fun he => h.compl ?_, fun c hc hf => by simp [task_formats ht c hc] at hf⟩
  rw [← taskOf_dhtHandle ht]
  exact he

/-- What a statement puts in front formats the reading only in state `COMPL`. -/
theorem exec_front_formats {now : UInt32} {s : Fw} {c d : Stmt} (hd : d ∈ (exec now s c).2)
    (hf : formats d = true) : s.board.dhtHandle.state = .compl := by
  cases c with
  | ifTimeout =>
    simp only [exec] at hd
    split at hd
    · simp only [timeout, List.mem_cons, List.not_mem_nil, or_false] at hd
      rcases hd with rfl | rfl | rfl <;> cases hf
    · cases hd
  | switchState =>
    simp only [exec] at hd
    cases hst : s.board.dhtHandle.state with
    | compl => rfl
    | err =>
      rw [hst] at hd
      have : ∀ d ∈ mainTaskCase .err, formats d = false := by decide
      simp [this d hd] at hf
    | _ => rw [hst] at hd; cases hd
  | ifAnswer pdata stack =>
    simp only [exec] at hd
    have : ∀ a, ∀ d ∈ daemonHandleAnswer a, formats d = false := by
      intro a; cases a <;> decide
    simp [this _ d hd] at hf
  | _ => cases hd

/-- A statement of a task never sets `COMPL`. -/
theorem exec_state {now : UInt32} {s : Fw} {c : Stmt}
    (h : (exec now s c).1.board.dhtHandle.state = .compl) : s.board.dhtHandle.state = .compl := by
  cases c with
  | setErr => cases h
  | setPrep => cases h
  | post => simpa [exec] using h
  | _ => exact h

theorem inv_exec {s : Fw × Option Bool} (h : Inv s) {now : UInt32} {c : Stmt} {rest : List Stmt}
    (hc : s.1.cont = c :: rest) :
    Inv ({ (exec now s.1 c).1 with cont := (exec now s.1 c).2 ++ rest }, s.2) := by
  refine ⟨fun he => h.compl (exec_state he), fun d hd hf => ?_⟩
  rcases List.mem_append.mp hd with hd | hd
  · exact h.compl (exec_front_formats hd hf)
  · exact h.formats d (by simp [hc, hd]) hf

theorem inv_step : sourced.Preserves Inv FramePasses := by
  rintro s e ⟨fw', st'⟩ h hk hs
  obtain ⟨hs, rfl⟩ := Machine.history_step.mp hs
  rcases step_cases hs with ⟨gs, n, n', rfl, -, rfl⟩ | ⟨b, task, ht, -, rfl⟩ | ⟨now, c, rest, rfl, hc, rfl⟩
  · exact inv_gpio h gs n n' hk
  · have hst : stored s.2 s.1 e = s.2 := by
      cases e with
      | gpio gs n n' => cases ht
      | _ => rfl
    rw [hst]
    exact inv_begin h ht
  · exact inv_exec h hc

/-- **Only good frames are published** in a run whose captures all pass the test. -/
theorem published_along (es : List Event) (hk : sourced.Along FramePasses sourced.init es) :
    sourced.Throughout PublishedOk sourced.init es :=
  (sourced.throughout_of_along inv_step inv_init hk).mono _ inv_publishedOk

/-- A capture that fails while no task runs is published by the next dispatch. -/
theorem bad_frame_published {s : Fw × Option Bool} (hc : s.1.cont = []) (hi : s.1.board.gpioIntr = true)
    (hq : ∀ p ∈ s.1.board.mainTaskQ, p = .dhtHandle) {gs n n' : UInt32}
    (hl : lastEdge gs s.1.board = true) (hp : passes n n' s.1.board = false) :
    ¬ sourced.Throughout PublishedOk s [.gpio gs n n', .dispatch, .exec 0] := by
  obtain ⟨⟨b, sts, pb, cont⟩, st⟩ := s
  simp only at hc hi hq hl hp
  subst hc
  have hb : dhtGpioCbk gs n n' b = finish (record n n' (b.setState .meas)) := dhtGpioCbk_of_last b gs n n' hl
  have hq1 : ∀ p ∈ (dhtGpioCbk gs n n' b).mainTaskQ, p = .dhtHandle := hb ▸ finish_queue hq
  have hst : (dhtGpioCbk gs n n' b).dhtHandle.state = .compl := hb ▸ finish_state _
  have hne : (dhtGpioCbk gs n n' b).mainTaskQ ≠ [] := hb ▸ finish_mainTaskQ_ne _
  have hbad : stored st ⟨b, sts, pb, []⟩ (.gpio gs n n') = some false := by simp [stored, hl, hp]
  -- the handler, the dispatch and the `switch`
  have h1 : sourced.step ((⟨b, sts, pb, []⟩ : Fw), st) (.gpio gs n n') =
      some (⟨dhtGpioCbk gs n n' b, sts, pb, []⟩, some false) := by
    rw [sourced, Machine.history_step]
    exact ⟨by simp [firmware, step, hi], hbad.symm⟩
  generalize dhtGpioCbk gs n n' b = b1 at hq1 hst hne h1
  obtain ⟨q, hmq⟩ : ∃ q, b1.mainTaskQ = .dhtHandle :: q := by
    obtain ⟨p, q, hpq⟩ := List.exists_cons_of_ne_nil hne
    exact ⟨q, by rw [hpq, hq1 p (by rw [hpq]; simp)]⟩
  have h2 : sourced.step (⟨b1, sts, pb, []⟩, some false) .dispatch =
      some (⟨{ b1 with mainTaskQ := q }, sts, pb, [.switchState]⟩, some false) := by
    rw [sourced, Machine.history_step]
    exact ⟨by simp [firmware, step, taskOf, hmq, mainTask], rfl⟩
  have h3 : sourced.step (⟨{ b1 with mainTaskQ := q }, sts, pb, [.switchState]⟩, some false) (.exec 0) =
      some (⟨{ b1 with mainTaskQ := q }, sts, pb, mainTaskCase .compl⟩, some false) := by
    rw [sourced, Machine.history_step]
    exact ⟨by simp [firmware, step, exec, hst], rfl⟩
  intro hT
  have h := (((hT.2 _ h1).2 _ h2).2 _ h3) rfl
  cases h

/-- The boot measurement, with 41 intervals of 50 µs and a last one. -/
def capture (last : UInt32) : List Event :=
  execs 0 9 ++ .tick :: execs 0 14 ++ List.replicate 41 (.gpio dhtPinBit 50 0) ++ [.gpio dhtPinBit last 0]

/-- The theorem on the frame of five zero bytes. -/
theorem published_along_zero :
    sourced.Throughout PublishedOk sourced.init (capture 50 ++ .dispatch :: execs 0 4) :=
  published_along _ (by decide +kernel)

/-- The frame `0, 0, 0, 0, 1` fails the test and is published. -/
theorem bad_frame_formatted :
    ¬ sourced.Throughout PublishedOk sourced.init (capture 120 ++ [.dispatch, .exec 0]) := by
  decide +kernel

end DhtPublish
end Netacademia
