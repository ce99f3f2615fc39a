/-
# Whether a report is fresh

A `DHT_GET` counts `daemonSts` up and calls `dhtStart`, which neither disables
the interrupt nor sets the index back: that waits for the next tick. So a
capture already under way goes on, and if it ends before the tick its reading
is reported, old edges included. The window of a request begins at its call of
`dhtStart`, a statement of its own.

* `fresh_along`: a report is fresh in a run where no such capture ends while
  the request is open.
* `stale_report`: a `DHT_GET` after the first edge of the boot measurement.
-/
import Netacademia.DhtPublish
import Netacademia.DhtIndex
import Netacademia.Report

namespace Netacademia
namespace DhtFresh

open Lib Dht Firmware Tasks Report DhtIndex

/-- What a run remembers since `dhtStart` was called for the last `DHT_GET`. -/
structure Origin where
  /-- The cells of `DhtResult` stored since then. -/
  slots : Vector Bool 42
  /-- A capture was under way, and was not restarted since. -/
  carried : Bool
  /-- The reading in `DhtHandle`, and the one in `printbuf`, come from a capture all
  of whose edges were stored since then. -/
  reading : Bool
  printed : Bool

/-- Before the first `DHT_GET`. -/
def Origin.none : Origin := ⟨Vector.replicate 42 false, false, false, false⟩

/-- An edge stores its cell; the call of `dhtStart` for a `DHT_GET` begins the window. -/
def origin (g : Origin) (s : Fw) : Event → Origin
  | .gpio gpioStatus _ _ =>
    if gpioStatus &&& dhtPinBit ≠ 0 then
      let slots := g.slots.setIfInBounds s.board.dhtResultIdx.toNat true
      { g with slots := slots, reading := if lastEdge gpioStatus s.board then slots.all id else g.reading }
    else g
  | .exec _ =>
    match s.cont with
    | .io .callDhtStart :: _ => { Origin.none with carried := s.board.dhtResultIdx != 0 }
    | .resetIdx :: _ => { g with carried := false }
    | .sprintfTemp :: _ => { g with printed := g.reading }
    | _ => g
  | _ => g

/-- The firmware with the origin of its reading. -/
def traced : Machine (Fw × Origin) Event := firmware.history .none origin

/-- What the report branch of `daemonRequest` sends is fresh. -/
def FreshReport (s : Fw × Origin) : Prop := Requests s.1 → s.1.daemonSts = 1 → s.2.printed = true

/-- From `PREP` on, no capture that was under way at the call ends in state 1. -/
def KeepsFresh (s : Fw × Origin) : Event → Prop
  | .gpio gpioStatus _ _ =>
    lastEdge gpioStatus s.1.board = true → s.1.daemonSts = 1 → .setPrep ∉ s.1.cont → s.2.carried = false
  | _ => True

instance : DecidablePred FreshReport := fun s => inferInstanceAs (Decidable (Requests s.1 → _))

instance : ∀ s e, Decidable (KeepsFresh s e)
  | s, .gpio gpioStatus _ _ => inferInstanceAs (Decidable (lastEdge gpioStatus s.1.board = true → _))
  | _, .tick | _, .dispatch | _, .socketStarter | _, .connCbk | _, .reconnCbk | _, .recvCbk _ _ | _, .exec _ =>
    isTrue trivial

/-! ### The invariant -/

/-- The count of a `DHT_GET`, and its call. -/
def asks : Stmt → Bool
  | .incDaemonSts | .io .callDhtStart => true
  | _ => false

/-- Where a statement of a task stands: `PREP` follows the count and the call, and
the reading is formatted in a task of its own. -/
def Placed : List Stmt → Bool
  | c :: rest =>
    if asks c then rest.contains .setPrep && !rest.contains .sprintfTemp
    else !((c :: rest).contains .setPrep && (c :: rest).contains .sprintfTemp)
  | [] => true

theorem placed_of_cont {cont : List Stmt} (h : Cont cont) : Placed cont = true :=
  Cont.all (P := fun cont => Placed cont = true) (fun _ _ => rfl) (by decide) h

/-- The cells below the index are stored. -/
def Stored (slots : Vector Bool 42) (idx : UInt8) : Prop := ∀ i (h : i < 42), i < idx.toNat → slots[i] = true

theorem stored_zero (slots : Vector Bool 42) : Stored slots 0 := fun i _ hi => absurd hi (Nat.not_lt_zero i)

/-- The next cell. -/
theorem stored_succ {slots : Vector Bool 42} {idx : UInt8} (h : Stored slots idx) :
    Stored (slots.setIfInBounds idx.toNat true) (idx + 1) := by
  intro i hi hlt
  have hle : (idx + 1).toNat ≤ idx.toNat + 1 := by
    rw [UInt8.toNat_add]
    exact Nat.mod_le _ _
  rw [Vector.getElem_setIfInBounds]
  split
  · rfl
  · exact h i hi (by omega)

/-- Past the last index all cells are stored. -/
theorem stored_all {slots : Vector Bool 42} {idx : UInt8} (h : Stored slots idx) (hi : 41 < idx) :
    slots.all id = true := by
  rw [Vector.all_eq_true]
  intro i hlt
  have h41 : 41 < idx.toNat := UInt8.lt_iff_toNat_lt.mp hi
  exact h i hlt (by omega)

structure Inv (s : Fw × Origin) : Prop where
  cont : Cont s.1.cont
  /-- A capture that began since the call has stored its cells since then. -/
  slots : s.2.carried = false → Stored s.2.slots s.1.board.dhtResultIdx
  /-- A reading that mainTask may take is fresh. -/
  compl : s.1.daemonSts = 1 → s.1.board.dhtHandle.state = .compl → .setPrep ∉ s.1.cont → s.2.reading = true
  format : s.1.daemonSts = 1 → .sprintfTemp ∈ s.1.cont → s.2.reading = true
  report : FreshReport s

theorem inv_init : Inv traced.init where
  cont := cont_init
  slots _ := stored_zero _
  compl h := by cases h
  format h := by cases h
  report h := absurd h (by decide)

/-! ### The steps -/

/-- The formatting of a reading is a task without `PREP`. -/
theorem no_setPrep {cont : List Stmt} (h : Cont cont) (hf : .sprintfTemp ∈ cont) : .setPrep ∉ cont := by
  have hp := placed_of_cont h
  cases cont with
  | nil => cases hf
  | cons c rest =>
    cases hc : asks c with
    | true =>
      have hne : c ≠ .sprintfTemp := by
        rintro rfl
        cases hc
      simp_all [Placed]
    | false => simp_all [Placed]

/-- What follows the count and the call: a measurement begins, and no reading is formatted. -/
theorem rest_of_asks {c : Stmt} {rest : List Stmt} (h : Cont (c :: rest)) (hc : asks c = true) :
    .setPrep ∈ rest ∧ .sprintfTemp ∉ rest := by
  have hp := placed_of_cont h
  rw [Placed, if_pos hc] at hp
  simpa using hp

/-- The interrupt handler. -/
theorem inv_gpio {s : Fw × Origin} (h : Inv s) {gs n n' : UInt32} (hk : KeepsFresh s (.gpio gs n n')) :
    Inv ({ s.1 with board := dhtGpioCbk gs n n' s.1.board }, origin s.2 s.1 (.gpio gs n n')) := by
  rcases dhtGpioCbk_cases s.1.board gs n n' with ⟨hs, he⟩ | ⟨hs, ho, he⟩ | ⟨hs, hl, he⟩
  · have hg : origin s.2 s.1 (.gpio gs n n') = s.2 := by simp [origin, hs]
    rw [hg, he]
    exact ⟨h.cont, h.slots, (fun _ hst => by cases hst), h.format, h.report⟩
  · have hg : origin s.2 s.1 (.gpio gs n n') =
        { s.2 with slots := s.2.slots.setIfInBounds s.1.board.dhtResultIdx.toNat true } := by
      simp [origin, hs, lastEdge, ho]
    rw [hg, he]
    exact ⟨h.cont, fun hc => stored_succ (h.slots hc), (fun _ hst => by cases hst), h.format, h.report⟩
  · have hle : lastEdge gs s.1.board = true := by simp [lastEdge, hs, hl]
    set slots := s.2.slots.setIfInBounds s.1.board.dhtResultIdx.toNat true with hslots
    have hg : origin s.2 s.1 (.gpio gs n n') = { s.2 with slots := slots, reading := slots.all id } := by
      simp [origin, hs, hle, hslots]
    -- the capture began since the request, or nobody waits for it
    have hfresh : s.1.daemonSts = 1 → .setPrep ∉ s.1.cont → slots.all id = true := fun h1 hp =>
      stored_all (stored_succ (h.slots (hk hle h1 hp))) hl
    have hidx := (finish_keeps (record n n' (s.1.board.setState .meas))).2.1
    have hstored : s.2.carried = false → Stored slots (finish (record n n' (s.1.board.setState .meas))).dhtResultIdx := by
      rw [hidx]
      exact fun hc => stored_succ (h.slots hc)
    rw [hg, he]
    generalize finish (record n n' (s.1.board.setState .meas)) = b at hstored ⊢
    exact ⟨h.cont, hstored, fun h1 _ hp => hfresh h1 hp, fun h1 hf => hfresh h1 (no_setPrep h.cont hf), h.report⟩

/-- State 1 is entered by the count alone. -/
theorem exec_daemonSts {now : UInt32} {s : Fw} {c : Stmt} (h : (exec now s c).1.daemonSts = 1)
    (hc : c ≠ .incDaemonSts) : s.daemonSts = 1 := by
  cases c with
  | incDaemonSts => exact absurd rfl hc
  | clearDaemonSts => cases h
  | daemonRequest pb =>
    by_contra h1
    exact h1 ((DaemonHandle.daemonRequest_sts_of_ne _ h1).symm.trans h)
  | _ => exact h

theorem origin_exec {g : Origin} {s : Fw} {now : UInt32} {c : Stmt} {rest : List Stmt} (hc : s.cont = c :: rest)
    (h1 : c ≠ .io .callDhtStart) (h2 : c ≠ .resetIdx) :
    origin g s (.exec now) = { g with printed := if c = .sprintfTemp then g.reading else g.printed } := by
  simp only [origin, hc]
  cases c with
  | io op =>
    cases op with
    | callDhtStart => exact absurd rfl h1
    | _ => rfl
  | resetIdx => exact absurd rfl h2
  | _ => rfl

/-- A reading is formatted by the `switch`, in state `COMPL`. -/
theorem switch_of_front {now : UInt32} {s : Fw} {c : Stmt} (hf : .sprintfTemp ∈ (exec now s c).2) :
    c = .switchState := by
  cases c with
  | switchState => rfl
  | ifTimeout =>
    simp only [exec] at hf
    split at hf
    · exact absurd hf (by decide)
    · cases hf
  | ifAnswer pdata stack =>
    simp only [exec] at hf
    have hno : ∀ a, .sprintfTemp ∉ daemonHandleAnswer a := by
      intro a
      cases a <;> decide
    exact absurd hf (hno _)
  | _ => cases hf

/-- The count of a `DHT_GET`: the window begins with the call that comes next. -/
theorem inv_incDaemonSts {s : Fw × Origin} (h : Inv s) {now : UInt32} {rest : List Stmt}
    (hc : s.1.cont = .incDaemonSts :: rest) :
    Inv ({ (exec now s.1 .incDaemonSts).1 with cont := rest }, origin s.2 s.1 (.exec now)) := by
  have hcont : Cont (.incDaemonSts :: rest) := hc ▸ h.cont
  obtain ⟨hprep, hnf⟩ := rest_of_asks hcont rfl
  have hg : origin s.2 s.1 (.exec now) = s.2 := by simp only [origin, hc]
  rw [hg]
  refine ⟨cont_exec now s.1 hcont, h.slots, fun _ _ hp => absurd hprep hp, fun _ hf => absurd hf hnf, fun hr => ?_⟩
  cases @sprintfTemp_of_head now s.1 _ _ hcont hr

/-- The call: nothing is stored since. -/
theorem inv_callDhtStart {s : Fw × Origin} (h : Inv s) {now : UInt32} {rest : List Stmt}
    (hc : s.1.cont = .io .callDhtStart :: rest) :
    Inv ({ (exec now s.1 (.io .callDhtStart)).1 with cont := rest }, origin s.2 s.1 (.exec now)) := by
  have hcont : Cont (.io .callDhtStart :: rest) := hc ▸ h.cont
  obtain ⟨hprep, hnf⟩ := rest_of_asks hcont rfl
  have hg : origin s.2 s.1 (.exec now) = { Origin.none with carried := s.1.board.dhtResultIdx != 0 } := by
    simp only [origin, hc]
  rw [hg]
  refine ⟨cont_exec now s.1 hcont, fun hcar => ?_, fun _ _ hp => absurd hprep hp, fun _ hf => absurd hf hnf,
    fun hr => ?_⟩
  · have h0 : s.1.board.dhtResultIdx = 0 := by simpa using hcar
    have := stored_zero Origin.none.slots
    rwa [← h0] at this
  · cases @sprintfTemp_of_head now s.1 _ _ hcont hr

/-- The index is set back: the next capture is a new one. -/
theorem inv_resetIdx {s : Fw × Origin} (h : Inv s) {now : UInt32} {rest : List Stmt}
    (hc : s.1.cont = .resetIdx :: rest) :
    Inv ({ (exec now s.1 .resetIdx).1 with cont := rest }, origin s.2 s.1 (.exec now)) := by
  have hcont : Cont (.resetIdx :: rest) := hc ▸ h.cont
  have hg : origin s.2 s.1 (.exec now) = { s.2 with carried := false } := by simp only [origin, hc]
  rw [hg]
  refine ⟨cont_exec now s.1 hcont, fun _ => stored_zero _, fun h1 hst hp => h.compl h1 hst ?_,
    fun h1 hf => h.format h1 ?_, fun hr => ?_⟩
  · rw [hc]
    simpa using hp
  · rw [hc]
    exact List.mem_cons_of_mem _ hf
  · cases @sprintfTemp_of_head now s.1 _ _ hcont hr

/-- A statement of the running task. -/
theorem inv_exec {s : Fw × Origin} (h : Inv s) {now : UInt32} {c : Stmt} {rest : List Stmt}
    (hc : s.1.cont = c :: rest) :
    Inv ({ (exec now s.1 c).1 with cont := (exec now s.1 c).2 ++ rest }, origin s.2 s.1 (.exec now)) := by
  by_cases hinc : c = .incDaemonSts
  · subst hinc
    exact inv_incDaemonSts h hc
  by_cases hcall : c = .io .callDhtStart
  · subst hcall
    exact inv_callDhtStart h hc
  by_cases hres : c = .resetIdx
  · subst hres
    exact inv_resetIdx h hc
  have hcont : Cont (c :: rest) := hc ▸ h.cont
  have hidx := @exec_index now s.1 c hres
  rw [origin_exec hc hcall hres]
  refine ⟨cont_exec now s.1 hcont, fun hcar => hidx ▸ h.slots hcar, fun h1 hst hp => ?_, fun h1 hf => ?_,
    fun hr h1 => ?_⟩
  · refine h.compl (exec_daemonSts h1 hinc) (DhtPublish.exec_state hst) ?_
    rw [hc]
    intro hm
    rcases List.mem_cons.mp hm with rfl | hm
    · cases hst
    · exact hp (List.mem_append_right _ hm)
  · have h1 := exec_daemonSts h1 hinc
    rcases List.mem_append.mp hf with hf | hf
    · -- the reading of a `COMPL` that the `switch` finds
      have hst := DhtPublish.exec_front_formats hf rfl
      obtain rfl := switch_of_front hf
      obtain rfl : rest = [] := by simpa [Branches] using hcont.branches
      exact h.compl h1 hst (by simp [hc])
    · exact h.format h1 (by rw [hc]; exact List.mem_cons_of_mem _ hf)
  · obtain rfl := sprintfTemp_of_head hcont hr
    exact h.format h1 (by rw [hc]; exact List.mem_cons_self)

theorem inv_step : traced.Preserves Inv KeepsFresh := by
  rintro s e ⟨fw', g'⟩ h hk hs
  obtain ⟨hs, rfl⟩ := Machine.history_step.mp hs
  rcases step_cases hs with ⟨gs, n, n', rfl, -, rfl⟩ | ⟨b, task, ht, hc, rfl⟩ | ⟨now, c, rest, rfl, hc, rfl⟩
  · exact inv_gpio h hk
  · have hg : origin s.2 s.1 e = s.2 := by
      cases e with
      | gpio gs n n' => cases ht
      | exec now => cases ht
      | _ => rfl
    have hidx := (task_index ht).1
    have hhandle := taskOf_dhtHandle ht
    rw [hg]
    refine ⟨cont_task ht, hidx ▸ h.slots, fun h1 hst _ => h.compl h1 (hhandle ▸ hst) (by simp [hc]),
      fun _ hf => ?_, fun hr => absurd hr (task_head ht)⟩
    cases DhtPublish.task_formats ht _ hf
  · exact inv_exec h hc

/-- **A report is fresh** in every run in which no capture that was under way when
`dhtStart` was called for the last `DHT_GET`, and was not restarted since, ends
while the request waits. -/
theorem fresh_along (es : List Event) (hk : traced.Along KeepsFresh traced.init es) :
    traced.Throughout FreshReport traced.init es :=
  (traced.throughout_of_along inv_step inv_init hk).mono _ fun _ h => h.report

/-- The statements of a `DHT_GET`. -/
def request : List Event := .recvCbk Daemons.DHT_GET [] :: execs 0 11

/-- The boot measurement up to its setup. -/
def setup : List Event := execs 0 9 ++ .tick :: execs 0 14

/-- Edges, and mainTask up to the call of `daemonRequest`. -/
def edges (n : ℕ) : List Event := List.replicate n (.gpio dhtPinBit 50 0)

def report : List Event := .dispatch :: execs 0 3

/-- The theorem on a `DHT_GET` whose tick restarts the capture under way. -/
theorem fresh_along_restarted : traced.Throughout FreshReport traced.init
    (setup ++ edges 1 ++ request ++ .tick :: execs 0 14 ++ edges 42 ++ report) :=
  fresh_along _ (by decide +kernel)

/-- Without the tick the capture ends with the edge from before the request, and is reported. -/
theorem stale_report :
    ¬ traced.Throughout FreshReport traced.init (setup ++ edges 1 ++ request ++ edges 41 ++ report) := by
  decide +kernel

end DhtFresh
end Netacademia
