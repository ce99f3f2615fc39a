/-
# A measurement of the HC-SR04

`ultraSStart` and `ultraSCbkGpio` of `orai_munka/user/hcsr04.c`, each as one
step, in runs of starts and interrupts. `UltraSensSts` counts the edges of
`HC_INPUT` since the start up to two (`interrupts_idle`, `interrupts_first`,
`interrupts_over`), so a start is followed by one completion at most, at the
second edge, and the result is the time between the two (`measurement`).
-/
import Netacademia.Sensors

namespace Netacademia
namespace Ultrasonic

open Sensors

/-- The GPIO interrupt: the status register, and the time in microseconds. -/
structure Interrupt where
  gpioSts : UInt32
  now : ℕ
  deriving DecidableEq, Repr

inductive Event
  | ultraSStart
  | gpio (i : Interrupt)
  deriving DecidableEq, Repr

/-- The interrupt handler, with the clock at `WDEW_NOW()`, which has 32 bits. -/
def interrupt (h : Hcsr04) (i : Interrupt) : Hcsr04 := ultraSCbkGpio i.gpioSts (UInt32.ofNat i.now) h

def handle (h : Hcsr04) : Event → Hcsr04
  | .ultraSStart => ultraSInit h
  | .gpio i => interrupt h i

/-- The statics after some events. -/
def after (es : List Event) : Hcsr04 := es.foldl handle ⟨0, 0, 0, 0⟩

/-- The times of the interrupts whose status has the bit of `HC_INPUT`. -/
def edges (is : List Interrupt) : List ℕ := (is.filter fun i => i.gpioSts &&& hcInputBit ≠ 0).map (·.now)

def Event.time : Event → Option ℕ
  | .ultraSStart => none
  | .gpio i => some i.now

/-- The times of the interrupts of a run. -/
def times (es : List Event) : List ℕ := es.filterMap Event.time

/-- From `h` to `h'` on these edges: at the second one a completion is posted, with
the time since the first as the result; before it nothing is posted and the
result is the old one. -/
def Measured (h h' : Hcsr04) : List ℕ → Prop
  | t₁ :: t₂ :: _ => h'.posts = h.posts + 1 ∧ h'.hcsr04ResultRaw.toNat = (t₂ - t₁) % 2 ^ 32 ∧
      (t₂ - t₁ < 2 ^ 32 → h'.hcsr04ResultRaw.toNat = t₂ - t₁)
  | _ => h'.posts = h.posts ∧ h'.hcsr04ResultRaw = h.hcsr04ResultRaw

/-! ### The interrupts after a start -/

/-- A difference on the clock. -/
theorem clock_sub {t₁ t₂ : ℕ} (h : t₁ ≤ t₂) :
    (UInt32.ofNat t₂ - UInt32.ofNat t₁).toNat = (t₂ - t₁) % 2 ^ 32 := by
  rw [UInt32.toNat_sub, UInt32.toNat_ofNat', UInt32.toNat_ofNat']
  omega

theorem interrupt_other {i : Interrupt} (hi : i.gpioSts &&& hcInputBit = 0) (h : Hcsr04) : interrupt h i = h :=
  ultraSCbkGpio_idle (Or.inl hi)

/-- After the second edge the interrupts change nothing. -/
theorem interrupts_over {h : Hcsr04} (h2 : h.ultraSensSts = 2) (is : List Interrupt) :
    is.foldl interrupt h = h := by
  induction is with
  | nil => rfl
  | cons i is ih =>
    have hi : interrupt h i = h := ultraSCbkGpio_idle (Or.inr (h2 ▸ UInt8.le_refl 2))
    rw [List.foldl_cons, hi, ih]

/-- After the first edge. -/
theorem interrupts_first {h : Hcsr04} (h1 : h.ultraSensSts = 1) (is : List Interrupt) :
    is.foldl interrupt h = h ∧ edges is = [] ∨
      ∃ t ts, edges is = t :: ts ∧
        is.foldl interrupt h =
          { h with
            hcsr04ResultRaw := UInt32.ofNat t - h.timerOffset
            ultraSensSts := 2
            posts := h.posts + 1 } := by
  induction is with
  | nil => exact Or.inl ⟨rfl, rfl⟩
  | cons i is ih =>
    rw [List.foldl_cons]
    by_cases hi : i.gpioSts &&& hcInputBit = 0
    · have he : edges (i :: is) = edges is := by simp [edges, hi]
      rw [interrupt_other hi, he]
      exact ih
    · have he : edges (i :: is) = i.now :: edges is := by simp [edges, hi]
      have hs : interrupt h i = { h with
          hcsr04ResultRaw := UInt32.ofNat i.now - h.timerOffset
          ultraSensSts := 2
          posts := h.posts + 1 } := by
        rw [interrupt, ultraSCbkGpio, if_pos hi, h1, if_neg (by decide), if_pos rfl]
        rfl
      refine Or.inr ⟨i.now, edges is, he, ?_⟩
      rw [hs, interrupts_over rfl]

/-- Before the first edge. -/
theorem interrupts_idle {h : Hcsr04} (h0 : h.ultraSensSts = 0) (is : List Interrupt) :
    is.foldl interrupt h = h ∧ edges is = [] ∨
      ∃ (i : Interrupt) (is' : List Interrupt), edges is = i.now :: edges is' ∧
        is.foldl interrupt h =
          is'.foldl interrupt { h with timerOffset := UInt32.ofNat i.now, ultraSensSts := 1 } := by
  induction is with
  | nil => exact Or.inl ⟨rfl, rfl⟩
  | cons i is ih =>
    rw [List.foldl_cons]
    by_cases hi : i.gpioSts &&& hcInputBit = 0
    · have he : edges (i :: is) = edges is := by simp [edges, hi]
      rw [interrupt_other hi, he]
      exact ih
    · have he : edges (i :: is) = i.now :: edges is := by simp [edges, hi]
      have hs : interrupt h i = { h with timerOffset := UInt32.ofNat i.now, ultraSensSts := 1 } := by
        rw [interrupt, ultraSCbkGpio, if_pos hi, if_pos h0, h0]
        rfl
      exact Or.inr ⟨i, is, he, by rw [hs]⟩

/-- The interrupts after a start, up to the next one. -/
theorem measured_of_start (h : Hcsr04) (is : List Interrupt) (hmono : (edges is).Pairwise (· ≤ ·)) :
    Measured h (is.foldl interrupt (ultraSInit h)) (edges is) := by
  rcases interrupts_idle (h := ultraSInit h) rfl is with ⟨hrun, he⟩ | ⟨i, is', he, hrun⟩
  · rw [hrun, he]
    exact ⟨rfl, rfl⟩
  · rw [hrun, he]
    set h1 : Hcsr04 := { ultraSInit h with timerOffset := UInt32.ofNat i.now, ultraSensSts := 1 } with hh1
    rcases interrupts_first (h := h1) rfl is' with ⟨hrun', he'⟩ | ⟨t, ts, he', hrun'⟩
    · rw [hrun', he']
      exact ⟨rfl, rfl⟩
    · have hle : i.now ≤ t := by
        rw [he, he'] at hmono
        exact List.rel_of_pairwise_cons hmono List.mem_cons_self
      rw [hrun', he']
      have hres := clock_sub hle
      exact ⟨rfl, hres, fun hlt => hres.trans (Nat.mod_eq_of_lt hlt)⟩

/-! ### Runs -/

theorem times_append (es fs : List Event) : times (es ++ fs) = times es ++ times fs := List.filterMap_append

theorem times_gpio (is : List Interrupt) : times (is.map .gpio) = is.map (·.now) := by
  rw [times, List.filterMap_map]
  exact List.filterMap_eq_map_iff_forall_eq_some.mpr fun _ _ => rfl

theorem foldl_gpio (is : List Interrupt) (h : Hcsr04) :
    (is.map Event.gpio).foldl handle h = is.foldl interrupt h := by
  rw [List.foldl_map]
  rfl

/-- **One start, one measurement.** After any events, a start and any interrupts,
the times not decreasing: a completion was posted since the start if and only if
the interrupts have two edges, it is the only one, and the result is the time
between the first two, on a clock of 32 bits. Otherwise the result is as before
the start. -/
theorem measurement (es : List Event) (is : List Interrupt)
    (hmono : (times (es ++ .ultraSStart :: is.map .gpio)).Pairwise (· ≤ ·)) :
    Measured (after es) (after (es ++ .ultraSStart :: is.map .gpio)) (edges is) := by
  have hedges : (edges is).Pairwise (· ≤ ·) := by
    have hsub : (edges is).Sublist (times (es ++ .ultraSStart :: is.map .gpio)) := by
      have hstart : times (.ultraSStart :: is.map .gpio) = is.map (·.now) := times_gpio is
      rw [times_append, hstart]
      exact (List.filter_sublist.map _).trans (List.sublist_append_right _ _)
    exact hmono.sublist hsub
  have hafter : after (es ++ .ultraSStart :: is.map .gpio) = is.foldl interrupt (ultraSInit (after es)) := by
    rw [after, List.foldl_append, List.foldl_cons, foldl_gpio]
    rfl
  rw [hafter]
  exact measured_of_start (after es) is hedges

/-- A start that is given up after one edge, then a measurement across the wrap of
the clock, with an interrupt of the DHT pin in it. -/
theorem measurement_wrapped :
    Measured (after [.ultraSStart, .gpio ⟨hcInputBit, 100⟩])
      (after [.ultraSStart, .gpio ⟨hcInputBit, 100⟩, .ultraSStart, .gpio ⟨hcInputBit, 4294967290⟩,
        .gpio ⟨1, 4294967300⟩, .gpio ⟨hcInputBit, 4294967870⟩]) [4294967290, 4294967870] :=
  measurement [.ultraSStart, .gpio ⟨hcInputBit, 100⟩]
    [⟨hcInputBit, 4294967290⟩, ⟨1, 4294967300⟩, ⟨hcInputBit, 4294967870⟩] (by decide)

end Ultrasonic
end Netacademia
