/-
# The index of a capture

`dhtGpioCbk` stores at `DhtResultIdx` and only then asks whether the capture is
complete, so a complete capture leaves the index at 42 with the interrupt
disabled. `dhtGpioCbkSetup` sets it back, but one statement after it enabled
the interrupt.

* `in_range_iff`: the stores of a run are all in range exactly when no edge is
  taken between these two statements with a completed capture still in place.
* `store_past_end`: an edge there in the second measurement stores at 42.
-/
import Netacademia.Tasks
import Netacademia.DhtCalls

namespace Netacademia
namespace DhtIndex

open Lib Dht Firmware Tasks

/-- Whether a capture was completed since `DhtResultIdx` was last set to 0. -/
def completed (done : Bool) (s : Fw) : Event → Bool
  | .gpio gpioStatus _ _ => done || lastEdge gpioStatus s.board
  | .exec _ =>
    match s.cont with
    | .resetIdx :: _ => false
    | _ => done
  | _ => done

/-- The firmware with the completion of its capture. -/
def indexed : Machine (Fw × Bool) Event := firmware.history false completed

/-- The store of the handler is inside of `DhtResult`. -/
def InRange (s : Fw × Bool) : Event → Prop
  | .gpio gpioStatus _ _ => gpioStatus &&& dhtPinBit ≠ 0 → s.1.board.dhtResultIdx ≤ 41
  | _ => True

/-- No edge comes between `ETS_GPIO_INTR_ENABLE()` and `DhtResultIdx = 0` after a
completed capture. -/
def Restarted (s : Fw × Bool) : Event → Prop
  | .gpio gpioStatus _ _ =>
    gpioStatus &&& dhtPinBit ≠ 0 → s.1.cont.head? = some .resetIdx → s.2 = false
  | _ => True

instance : ∀ s e, Decidable (InRange s e)
  | _, .gpio _ _ _ => instDecidableForall
  | _, .tick | _, .dispatch | _, .socketStarter | _, .connCbk | _, .reconnCbk | _, .recvCbk _ _ | _, .exec _ =>
    isTrue trivial

instance : ∀ s e, Decidable (Restarted s e)
  | _, .gpio _ _ _ => instDecidableForall
  | _, .tick | _, .dispatch | _, .socketStarter | _, .connCbk | _, .reconnCbk | _, .recvCbk _ _ | _, .exec _ =>
    isTrue trivial

/-! ### The invariant -/

/-- The index is past the end exactly when a capture is complete, and then the
interrupt is disabled or the index is about to be set back. -/
structure Inv (s : Fw × Bool) : Prop where
  cont : Cont s.1.cont
  done : s.2 = true ↔ 41 < s.1.board.dhtResultIdx
  intr : s.1.board.gpioIntr = true → ¬ 41 < s.1.board.dhtResultIdx ∨ s.1.cont.head? = some .resetIdx

theorem inv_init : Inv indexed.init where
  cont := cont_init
  done := by decide
  intr h := by cases h

/-- The setup goes on with `DhtResultIdx = 0` once it has enabled the interrupt. -/
def Enables : List Stmt → Bool
  | .intrEnable :: rest => rest.head? == some .resetIdx
  | _ => true

theorem enables_of_cont {cont : List Stmt} (h : Cont cont) : Enables cont = true :=
  Cont.all (P := fun cont => Enables cont = true) (fun _ _ => rfl) (by decide) h

/-- Where the interrupt is enabled, the two conditions are the same. -/
theorem inRange_iff {s : Fw × Bool} (h : Inv s) (hi : s.1.board.gpioIntr = true) (gs n n' : UInt32) :
    InRange s (.gpio gs n n') ↔ Restarted s (.gpio gs n n') := by
  refine forall_congr' fun _ => ?_
  rw [← UInt8.not_lt, ← h.done, Bool.not_eq_true]
  constructor
  · exact fun hd _ => hd
  · intro hr
    rcases h.intr hi with hlt | hhead
    · rwa [← h.done, Bool.not_eq_true] at hlt
    · exact hr hhead

/-- The interrupt handler. -/
theorem inv_gpio {s : Fw × Bool} (h : Inv s) (hi : s.1.board.gpioIntr = true) {gs n n' : UInt32}
    (hk : Restarted s (.gpio gs n n')) :
    Inv ({ s.1 with board := dhtGpioCbk gs n n' s.1.board }, completed s.2 s.1 (.gpio gs n n')) := by
  rcases dhtGpioCbk_cases s.1.board gs n n' with ⟨hs, he⟩ | ⟨hs, ho, he⟩ | ⟨hs, hl, he⟩
  · have hd : completed s.2 s.1 (.gpio gs n n') = s.2 := by simp [completed, lastEdge, hs]
    rw [hd, he]
    exact ⟨h.cont, h.done, h.intr⟩
  · -- the index was in range, so the capture was not complete
    have hlt := UInt8.not_lt.mpr ((inRange_iff h hi gs n n').mpr hk hs)
    have hd : completed s.2 s.1 (.gpio gs n n') = false := by
      simpa [completed, lastEdge, hs, ho] using mt h.done.mp hlt
    rw [hd, he]
    exact ⟨h.cont, ⟨fun hf => absurd hf Bool.false_ne_true, fun h41 => absurd h41 ho⟩, fun _ => Or.inl ho⟩
  · have hd : completed s.2 s.1 (.gpio gs n n') = true := by simp [completed, lastEdge, hs, hl]
    obtain ⟨-, hidx, hintr⟩ := finish_keeps (record n n' (s.1.board.setState .meas))
    have hidx' : 41 < (finish (record n n' (s.1.board.setState .meas))).dhtResultIdx := by
      rw [hidx]
      exact hl
    rw [hd, he]
    generalize finish (record n n' (s.1.board.setState .meas)) = b at hintr hidx' ⊢
    exact ⟨h.cont, ⟨fun _ => hidx', fun _ => rfl⟩, fun hg => absurd (hintr.symm.trans hg) Bool.false_ne_true⟩

/-- Only the setup sets the index back. -/
theorem exec_index {now : UInt32} (s : Fw) {c : Stmt} (hr : c ≠ .resetIdx) :
    (exec now s c).1.board.dhtResultIdx = s.board.dhtResultIdx := by
  cases c with
  | resetIdx => exact absurd rfl hr
  | post => exact post_dhtResultIdx _
  | _ => rfl

/-- Only the setup enables the interrupt. -/
theorem exec_gpioIntr {now : UInt32} {s : Fw} {c : Stmt} (he : c ≠ .intrEnable)
    (h : (exec now s c).1.board.gpioIntr = true) : s.board.gpioIntr = true := by
  cases c with
  | intrEnable => exact absurd rfl he
  | intrDisable => cases h
  | post => simpa [exec] using h
  | _ => exact h

theorem completed_exec {done : Bool} {s : Fw} {now : UInt32} {c : Stmt} {rest : List Stmt} (hc : s.cont = c :: rest)
    (hr : c ≠ .resetIdx) : completed done s (.exec now) = done := by
  simp only [completed, hc]
  cases c with
  | resetIdx => exact absurd rfl hr
  | _ => rfl

/-- A statement of the running task. -/
theorem inv_exec {s : Fw × Bool} (h : Inv s) {now : UInt32} {c : Stmt} {rest : List Stmt}
    (hc : s.1.cont = c :: rest) :
    Inv ({ (exec now s.1 c).1 with cont := (exec now s.1 c).2 ++ rest }, completed s.2 s.1 (.exec now)) := by
  have hcont : Cont (c :: rest) := hc ▸ h.cont
  have hcont' := cont_exec now s.1 hcont
  by_cases hr : c = .resetIdx
  · subst hr
    have hd : completed s.2 s.1 (.exec now) = false := by simp [completed, hc]
    rw [hd]
    have h0 : ¬ (41 : UInt8) < 0 := by decide
    exact ⟨hcont', ⟨nofun, fun h41 => absurd h41 h0⟩, fun _ => Or.inl h0⟩
  · rw [completed_exec hc hr]
    by_cases he : c = .intrEnable
    · subst he
      have hen := enables_of_cont hcont
      exact ⟨hcont', h.done, fun _ => Or.inr (by simpa [Enables, exec] using hen)⟩
    · have hidx := @exec_index now s.1 c hr
      refine ⟨hcont', hidx ▸ h.done, fun hg => Or.inl ?_⟩
      rcases h.intr (exec_gpioIntr he hg) with hlt | hhead
      · exact hidx ▸ hlt
      · rw [hc] at hhead
        exact absurd (Option.some.inj hhead) hr

/-- The begin of a task changes neither. -/
theorem task_index {b b' : Board} {e : Event} {task : List Stmt} (h : taskOf b e = some (b', task)) :
    b'.dhtResultIdx = b.dhtResultIdx ∧ b'.gpioIntr = b.gpioIntr := by
  rcases taskOf_cases h with ⟨-, -, rfl, -⟩ | ⟨p, q, -, -, rfl, -⟩ | ⟨rfl, -⟩ <;> exact ⟨rfl, rfl⟩

theorem inv_step : indexed.Preserves Inv Restarted := by
  rintro s e ⟨fw', done'⟩ h hk hs
  obtain ⟨hs, rfl⟩ := Machine.history_step.mp hs
  rcases step_cases hs with ⟨gs, n, n', rfl, hi, rfl⟩ | ⟨b, task, ht, hc, rfl⟩ | ⟨now, c, rest, rfl, hc, rfl⟩
  · exact inv_gpio h hi hk
  · have hd : completed s.2 s.1 e = s.2 := by
      cases e with
      | gpio gs n n' => cases ht
      | exec now => cases ht
      | _ => rfl
    obtain ⟨hidx, hintr⟩ := task_index ht
    rw [hd]
    refine ⟨cont_task ht, hidx ▸ h.done, fun hg => Or.inl ?_⟩
    rcases h.intr (hintr ▸ hg) with hlt | hhead
    · exact hidx ▸ hlt
    · simp [hc] at hhead
  · exact inv_exec h hc

/-- **When the stores are in range.** In every run, over any number of
measurements, every store of the handler is at an index up to 41 if and only if
no edge is taken between the enabling of the interrupt and `DhtResultIdx = 0`
while a completed capture is in place. -/
theorem in_range_iff (es : List Event) :
    indexed.Along InRange indexed.init es ↔ indexed.Along Restarted indexed.init es := by
  refine indexed.along_iff_along inv_step (fun s e s' h hs => ?_) inv_init es
  cases e with
  | gpio gs n n' =>
    obtain ⟨hs, -⟩ := Machine.history_step.mp hs
    exact inRange_iff h (gpioIntr_of_step hs) gs n n'
  | _ => exact Iff.rfl

/-- The boot measurement, its dispatch, a `DHT_GET`, and the next tick up to the
enabling of the interrupt. -/
def secondSetup : List Event :=
  execs 0 9 ++ .tick :: execs 0 14 ++ List.replicate 42 (.gpio dhtPinBit 50 0) ++
    .dispatch :: execs 0 4 ++ .recvCbk Daemons.DHT_GET [] :: execs 0 11 ++
    .tick :: execs 0 11

/-- The first edge comes before the index is set back, and is stored at 42. -/
theorem store_past_end : ¬ indexed.Along InRange indexed.init (secondSetup ++ [.gpio dhtPinBit 50 0]) := by
  decide +kernel

end DhtIndex
end Netacademia
