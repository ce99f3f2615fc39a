/-
# Machines that take labelled steps, and what holds along their runs

A machine has an initial state and a partial step: `none` when the event is
not enabled. A run is a list of events taken one after the other; a list with
an event that is not enabled runs up to it.

Two ways to speak about a run: `Throughout P`, the state property `P` holds in
every state the run passes, and `Along C`, every step the run takes meets the
condition `C`. `throughout_of_along` is the invariant rule between them, and
`throughout_iff_along` its exact form: where the first step that breaks `C`
breaks `P` at once, the two are the same thing.

A history (`history`) is a value computed along the run from the states and
the events, carried beside them.
-/
import Mathlib.Data.List.Basic

namespace Lib

/-- An initial state and a partial step on events. -/
structure Machine (σ ε : Type*) where
  init : σ
  step : σ → ε → Option σ

namespace Machine

variable {σ ε γ : Type*} (m : Machine σ ε)

/-- The state after the events, if each of them is enabled in its turn. -/
def run : σ → List ε → Option σ
  | s, [] => some s
  | s, e :: es => (m.step s e).bind fun s' => run s' es

/-- `P` holds in `s` and in every state the run from it passes. -/
def Throughout (P : σ → Prop) : σ → List ε → Prop
  | s, [] => P s
  | s, e :: es => P s ∧ ∀ s', m.step s e = some s' → Throughout P s' es

/-- Every step the run from `s` takes meets `C`. -/
def Along (C : σ → ε → Prop) : σ → List ε → Prop
  | _, [] => True
  | s, e :: es => ∀ s', m.step s e = some s' → C s e ∧ Along C s' es

@[simp] theorem run_nil (s : σ) : m.run s [] = some s := rfl

theorem run_cons (s : σ) (e : ε) (es : List ε) :
    m.run s (e :: es) = (m.step s e).bind fun s' => m.run s' es := rfl

theorem run_cons_eq_some {s s' : σ} {e : ε} {es : List ε} :
    m.run s (e :: es) = some s' ↔ ∃ s₁, m.step s e = some s₁ ∧ m.run s₁ es = some s' := by
  rw [run_cons, Option.bind_eq_some_iff]

theorem Throughout.start {P : σ → Prop} {s : σ} {es : List ε} (h : m.Throughout P s es) : P s := by
  cases es with
  | nil => exact h
  | cons e es => exact h.1

/-- What holds throughout a run holds in the state after any part of it. -/
theorem Throughout.reached {P : σ → Prop} {s s' : σ} {es fs : List ε}
    (h : m.Throughout P s (es ++ fs)) (hr : m.run s es = some s') : P s' := by
  induction es generalizing s with
  | nil => rw [run_nil] at hr; exact Option.some.inj hr ▸ h.start
  | cons e es ih =>
    obtain ⟨s₁, h1, h2⟩ := m.run_cons_eq_some.mp hr
    exact ih (h.2 s₁ h1) h2

theorem throughout_iff {P : σ → Prop} {s : σ} {es : List ε} :
    m.Throughout P s es ↔ ∀ fs gs s', es = fs ++ gs → m.run s fs = some s' → P s' := by
  constructor
  · rintro h fs gs s' rfl hr
    exact h.reached m hr
  · intro h
    induction es generalizing s with
    | nil => exact h [] [] s rfl rfl
    | cons e es ih =>
      refine ⟨h [] _ s rfl rfl, fun s' hs => ih fun fs gs t he hr => ?_⟩
      exact h (e :: fs) gs t (by rw [he, List.cons_append])
        (m.run_cons_eq_some.mpr ⟨s', hs, hr⟩)

theorem Throughout.mono {P Q : σ → Prop} (hPQ : ∀ s, P s → Q s) {s : σ} {es : List ε}
    (h : m.Throughout P s es) : m.Throughout Q s es :=
  m.throughout_iff.mpr fun fs gs s' he hr => hPQ s' (m.throughout_iff.mp h fs gs s' he hr)

/-- A condition on the events alone can be added. -/
theorem Along.and_forall {C : σ → ε → Prop} {Q : ε → Prop} {s : σ} {es : List ε} (h : m.Along C s es)
    (hQ : ∀ e ∈ es, Q e) : m.Along (fun s e => C s e ∧ Q e) s es := by
  induction es generalizing s with
  | nil => trivial
  | cons e es ih =>
    intro s' hs
    obtain ⟨hc, ha⟩ := h s' hs
    exact ⟨⟨hc, hQ e List.mem_cons_self⟩, ih ha fun f hf => hQ f (List.mem_cons_of_mem _ hf)⟩

/-! ### Runs can be checked -/

section Decide

variable {P : σ → Prop} {C : σ → ε → Prop}

instance decidableThroughout [DecidablePred P] : ∀ s es, Decidable (m.Throughout P s es)
  | s, [] => inferInstanceAs (Decidable (P s))
  | s, e :: es =>
    match h : m.step s e with
    | none => decidable_of_iff (P s) ⟨fun hP => ⟨hP, fun s' hs => by simp [h] at hs⟩, And.left⟩
    | some t =>
      have := decidableThroughout t es
      decidable_of_iff (P s ∧ m.Throughout P t es)
        ⟨fun hP => ⟨hP.1, fun s' hs => by rw [h] at hs; exact Option.some.inj hs ▸ hP.2⟩,
          fun hP => ⟨hP.1, hP.2 t h⟩⟩

instance decidableAlong [∀ s e, Decidable (C s e)] : ∀ s es, Decidable (m.Along C s es)
  | _, [] => isTrue trivial
  | s, e :: es =>
    match h : m.step s e with
    | none => isTrue fun s' hs => by simp [h] at hs
    | some t =>
      have := decidableAlong t es
      decidable_of_iff (C s e ∧ m.Along C t es)
        ⟨fun hC s' hs => by rw [h] at hs; exact Option.some.inj hs ▸ hC, fun hC => hC t h⟩

end Decide

/-! ### Invariants -/

section Invariant

variable {I P : σ → Prop} {C : σ → ε → Prop}

/-- A step that meets `C` keeps `I`. -/
def Preserves (I : σ → Prop) (C : σ → ε → Prop) : Prop :=
  ∀ s e s', I s → C s e → m.step s e = some s' → I s'

/-- An invariant of the steps that meet `C` holds throughout a run of them. -/
theorem throughout_of_along (hpres : m.Preserves I C) {s : σ} (h0 : I s) {es : List ε}
    (hC : m.Along C s es) : m.Throughout I s es := by
  induction es generalizing s with
  | nil => exact h0
  | cons e es ih =>
    refine ⟨h0, fun s' hs => ?_⟩
    obtain ⟨hc, ha⟩ := hC s' hs
    exact ih (hpres s e s' h0 hc hs) ha

/-- The same for all runs, where every step keeps `I`. -/
theorem throughout_of_inv (hpres : ∀ s e s', I s → m.step s e = some s' → I s') {s : σ} (h0 : I s)
    (es : List ε) : m.Throughout I s es := by
  induction es generalizing s with
  | nil => exact h0
  | cons e es ih => exact ⟨h0, fun s' hs => ih (hpres s e s' h0 hs)⟩

/-- What every step from the invariant meets, every step of a run meets. -/
theorem along_of_inv (hpres : ∀ s e s', I s → m.step s e = some s' → I s') (hC : ∀ s e, I s → C s e)
    {s : σ} (h0 : I s) (es : List ε) : m.Along C s es := by
  induction es generalizing s with
  | nil => trivial
  | cons e es ih => exact fun s' hs => ⟨hC s e h0, ih (hpres s e s' h0 hs)⟩

/-- **The exact rule.** If the steps that meet `C` keep an invariant that gives
`P`, and from the invariant a step that breaks `C` leads out of `P`, then `P`
holds throughout a run exactly when all its steps meet `C`. -/
theorem throughout_iff_along (hIP : ∀ s, I s → P s) (hpres : m.Preserves I C)
    (hbad : ∀ s e s', I s → ¬ C s e → m.step s e = some s' → ¬ P s') {s : σ} (h0 : I s)
    (es : List ε) : m.Throughout P s es ↔ m.Along C s es := by
  constructor
  · intro h
    induction es generalizing s with
    | nil => trivial
    | cons e es ih =>
      intro s' hs
      have hP : P s' := (h.2 s' hs).start
      have hc : C s e := by
        by_contra hc
        exact hbad s e s' h0 hc hs hP
      exact ⟨hc, ih (hpres s e s' h0 hc hs) (h.2 s' hs)⟩
  · intro h
    exact (m.throughout_of_along hpres h0 h).mono m hIP

/-- Two conditions on steps that agree where an invariant of the steps that meet
the one holds are met along the same runs. -/
theorem along_iff_along {D : σ → ε → Prop} (hpres : m.Preserves I C)
    (hiff : ∀ s e s', I s → m.step s e = some s' → (D s e ↔ C s e)) {s : σ} (h0 : I s) (es : List ε) :
    m.Along D s es ↔ m.Along C s es := by
  induction es generalizing s with
  | nil => exact Iff.rfl
  | cons e es ih =>
    refine forall_congr' fun s' => forall_congr' fun hs => ?_
    rw [hiff s e s' h0 hs]
    exact and_congr_right fun hc => ih (hpres s e s' h0 hc hs)

end Invariant

/-! ### Histories -/

/-- The machine with a history: a value that starts at `g` and is updated from
the state before each step and the event. -/
def history (g : γ) (upd : γ → σ → ε → γ) : Machine (σ × γ) ε where
  init := (m.init, g)
  step s e := (m.step s.1 e).map fun s' => (s', upd s.2 s.1 e)

variable {m} in
theorem history_step {g₀ : γ} {upd : γ → σ → ε → γ} {s s' : σ × γ} {e : ε} :
    (m.history g₀ upd).step s e = some s' ↔ m.step s.1 e = some s'.1 ∧ s'.2 = upd s.2 s.1 e := by
  obtain ⟨t, g⟩ := s'
  simp only [history, Option.map_eq_some_iff, Prod.mk.injEq]
  constructor
  · rintro ⟨_, h, rfl, rfl⟩
    exact ⟨h, rfl⟩
  · rintro ⟨h, rfl⟩
    exact ⟨t, h, rfl, rfl⟩

end Machine
end Lib
