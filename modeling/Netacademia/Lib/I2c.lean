/-
# A two-wire bus

A data line and a clock line, driven by a master and, for the data, by a device; a line that
one of them pulls down is low. While the clock is low the data may change, and what it is
when the clock rises is a bit, which is complete when the clock falls again. Data that
changes while the clock is high is no bit but a START or a STOP.

A `Device` is any machine on the symbols of the bus. It changes the data while the clock is
low only. `exchange` is what comes of the levels that the master puts on the bus one after
the other.
-/
import Mathlib.Data.List.Basic

namespace Lib
namespace I2c

inductive Symbol
  | start
  | stop
  | bit (b : Bool)
  deriving DecidableEq, Repr

/-- What a device does on a symbol, and whether it leaves the data line high. -/
structure Device (σ : Type*) where
  next : σ → Symbol → σ
  level : σ → Bool

/-- The levels the master drives, and what the bus has come to. -/
structure Bus (σ : Type*) where
  sda : Bool
  scl : Bool
  /-- The bit that the rise of the clock took, while it is high. -/
  sampled : Option Bool
  /-- The level of the device on the data line. -/
  held : Bool
  dev : σ
  /-- The symbols so far. -/
  seen : List Symbol
  /-- No two lines were changed at once. -/
  apart : Bool

/-- The data line. -/
def Bus.line {σ : Type*} (s : Bus σ) : Bool := s.sda && s.held

section Bus

variable {σ : Type*} (D : Device σ)

def Bus.tell (s : Bus σ) (x : Symbol) : Bus σ := { s with dev := D.next s.dev x, seen := s.seen ++ [x] }

/-- The end of a bit. -/
def Bus.complete (s : Bus σ) : Bus σ :=
  match s.sampled with
  | some b => s.tell D (.bit b)
  | none => s

/-- The master sets its lines. -/
def Bus.drive (sda scl : Bool) (s : Bus σ) : Bus σ :=
  let t := { s with sda := sda, scl := scl, apart := s.apart && (s.sda == sda || s.scl == scl) }
  match s.scl, scl with
  | false, false => { t with held := D.level s.dev }
  | false, true => { t with sampled := some t.line }
  | true, false =>
    let t := t.complete D
    { t with sampled := none, held := D.level t.dev }
  | true, true =>
    if t.line = s.line then t else { t.tell D (if t.line then .stop else .start) with sampled := none }

/-- What the bits come to that the master puts on the bus. -/
def exchange : σ → List Bool → List Bool × σ
  | q, [] => ([], q)
  | q, d :: ds =>
    let b := d && D.level q
    let r := exchange (D.next q (.bit b)) ds
    (b :: r.1, r.2)

/-! ### The lines -/

theorem complete_lines (s : Bus σ) : (s.complete D).sda = s.sda ∧ (s.complete D).scl = s.scl := by
  unfold Bus.complete
  split
  · exact ⟨rfl, rfl⟩
  · exact ⟨rfl, rfl⟩

theorem drive_lines (sda scl : Bool) (s : Bus σ) : (s.drive D sda scl).sda = sda ∧ (s.drive D sda scl).scl = scl := by
  simp only [Bus.drive]
  split
  · exact ⟨rfl, rfl⟩
  · exact ⟨rfl, rfl⟩
  · exact complete_lines D _
  · split <;> exact ⟨rfl, rfl⟩

theorem drive_apart (sda scl : Bool) (s : Bus σ) :
    (s.drive D sda scl).apart = (s.apart && (s.sda == sda || s.scl == scl)) := by
  simp only [Bus.drive, Bus.complete]
  split
  · rfl
  · rfl
  · split <;> rfl
  · split <;> rfl

/-! ### The states between the calls of a master -/

/-- The clock is low. -/
def low (d : Bool) (q : σ) (h : List Symbol) (a : Bool) : Bus σ := ⟨d, false, none, D.level q, q, h, a⟩

/-- The clock is high, with the data as it rose. -/
def up (d : Bool) (q : σ) (h : List Symbol) (a : Bool) : Bus σ :=
  ⟨d, true, some (d && D.level q), D.level q, q, h, a⟩

/-- The clock is high after a START or a STOP, the data low or high. -/
def marked (d : Bool) (q : σ) (h : List Symbol) (a : Bool) : Bus σ := ⟨d, true, none, true, q, h, a⟩

variable {D} {q : σ} {h : List Symbol} {a : Bool}

theorem drive_low (d d' : Bool) : (low D d q h a).drive D d' false = low D d' q h a := by
  simp [low, Bus.drive]

theorem drive_up (d : Bool) : (low D d q h a).drive D d true = up D d q h a := by
  simp [low, up, Bus.drive, Bus.line]

theorem drive_down (d : Bool) :
    (up D d q h a).drive D d false = low D d (D.next q (.bit (d && D.level q))) (h ++ [.bit (d && D.level q)]) a := by
  simp [low, up, Bus.drive, Bus.complete, Bus.tell]

/-- A START, with the line left to the master. -/
theorem drive_start (hq : D.level q = true) :
    (up D true q h a).drive D false true = marked false (D.next q .start) (h ++ [.start]) a := by
  simp [up, marked, Bus.drive, Bus.line, Bus.tell, hq]

/-- A STOP. -/
theorem drive_stop (hq : D.level q = true) :
    (up D false q h a).drive D true true = marked true (D.next q .stop) (h ++ [.stop]) a := by
  simp [up, marked, Bus.drive, Bus.line, Bus.tell, hq]

theorem drive_marked (d : Bool) : (marked d q h a).drive D d true = marked d q h a := by
  simp [marked, Bus.drive, Bus.line]

/-- A START after a STOP, and a STOP after a START. -/
theorem drive_restart : (marked true q h a).drive D false true = marked false (D.next q .start) (h ++ [.start]) a := by
  simp [marked, Bus.drive, Bus.line, Bus.tell]

theorem drive_release : (marked false q h a).drive D true true = marked true (D.next q .stop) (h ++ [.stop]) a := by
  simp [marked, Bus.drive, Bus.line, Bus.tell]

/-- The clock falls after a START or a STOP. -/
theorem drive_marked_down (d : Bool) : (marked d q h a).drive D d false = low D d q h a := by
  simp [marked, low, Bus.drive, Bus.complete]

/-! ### Bits -/

variable (D) in
/-- One bit: the data, the clock up, the clock down. -/
def Bus.pulse (d : Bool) (s : Bus σ) : Bus σ := ((s.drive D d false).drive D d true).drive D d false

theorem pulse_low (d d' : Bool) :
    (low D d' q h a).pulse D d = low D d (D.next q (.bit (d && D.level q))) (h ++ [.bit (d && D.level q)]) a := by
  rw [Bus.pulse, drive_low, drive_up, drive_down]

theorem length_exchange (q : σ) (ds : List Bool) : (exchange D q ds).1.length = ds.length := by
  induction ds generalizing q with
  | nil => rfl
  | cons d ds ih => rw [exchange, List.length_cons, List.length_cons, ih]

theorem exchange_append (q : σ) (ds ds' : List Bool) :
    exchange D q (ds ++ ds') =
      ((exchange D q ds).1 ++ (exchange D (exchange D q ds).2 ds').1, (exchange D (exchange D q ds).2 ds').2) := by
  induction ds generalizing q with
  | nil => rfl
  | cons d ds ih => rw [List.cons_append, exchange, ih]; rfl

/-- A sequence of bits. -/
theorem pulses_low (ds : List Bool) (d' : Bool) :
    ∃ d, ds.foldl (fun s d => s.pulse D d) (low D d' q h a) =
      low D d (exchange D q ds).2 (h ++ (exchange D q ds).1.map .bit) a := by
  induction ds generalizing d' q h with
  | nil => exact ⟨d', by rw [List.foldl_nil, exchange, List.map_nil, List.append_nil]⟩
  | cons d ds ih =>
    rw [List.foldl_cons, pulse_low]
    obtain ⟨e, he⟩ := ih (q := D.next q (.bit (d && D.level q))) (h := h ++ [.bit (d && D.level q)]) d
    refine ⟨e, ?_⟩
    rw [he, exchange, List.map_cons, List.append_assoc, List.singleton_append]

end Bus

end I2c
end Lib
