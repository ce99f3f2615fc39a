/-
# The keys

`driver/key.c`, the same file in `orai_munka`, `development`, `driver_lib` and the examples.
An edge of a key's pin sets its bit in the GPIO status, if it is the edge that the pin's
interrupt is set to; the handler and the two timers of each key set it to the other edge, or
to none for 50 ms. The pins change between any two statements, and the interrupt is taken
between any two statements of a timer routine.

* `never_missed_iff`: no key is left waiting for an edge that has already been, if and only
  if all keys are up at first and each pin has its last level still when its interrupt is set.
* `presses_answered`: each press that the handler has taken comes to one `short_press` and to
  one `long_press` at most, which comes first; no key is left without an interrupt or a timer.
-/
import Mathlib.Data.List.Chain
import Mathlib.Data.List.FinRange
import Mathlib.Logic.Function.Basic
import Netacademia.Lib.Machine

namespace Netacademia
namespace Keys

open Lib

/-- `GPIO_PIN_INTR_DISABLE`, `GPIO_PIN_INTR_POSEDGE` and `GPIO_PIN_INTR_NEGEDGE`. -/
inductive Intr
  | disable
  | posedge
  | negedge
  deriving DecidableEq, Repr

/-- The functions of the user. -/
inductive Call
  | shortPress
  | longPress
  deriving DecidableEq, Repr

/-- A key: its pin (high when it is up), what the GPIO has of it, and its fields. -/
structure Key where
  pin : Bool
  intr : Intr
  /-- Its bit in the GPIO status. -/
  status : Bool
  keyLevel : UInt8
  /-- The timers, as long as they are armed. -/
  key5s : Bool
  key50ms : Bool
  /-- The functions that were called. -/
  calls : List Call
  deriving DecidableEq, Repr

inductive Stmt
  | intrDisable
  | clearStatus
  /-- The test of `key_level` in `key_intr_handler`. -/
  | ifLevel
  | disarm5s
  | arm5s
  | setLevel0
  | intrPosedge
  | disarm50ms
  | arm50ms
  /-- The test of the pin in `key_5s_cb`. -/
  | ifLow
  | longPress
  /-- The test of the pin in `key_50ms_cb`. -/
  | ifHigh
  | setLevel1
  | intrNegedge
  | shortPress
  deriving DecidableEq, Repr

/-- `key_intr_handler` for a key whose bit is set. -/
def keyIntrHandler : List Stmt := [.intrDisable, .clearStatus, .ifLevel]

def key5sCb : List Stmt := [.disarm5s, .ifLow]

def key50msCb : List Stmt := [.disarm50ms, .ifHigh]

/-- A statement, and the statements of the branch it takes. -/
def exec (k : Key) : Stmt → Key × List Stmt
  | .intrDisable => ({ k with intr := .disable }, [])
  | .clearStatus => ({ k with status := false }, [])
  | .ifLevel =>
    if k.keyLevel = 1 then (k, [.disarm5s, .arm5s, .setLevel0, .intrPosedge]) else (k, [.disarm50ms, .arm50ms])
  | .disarm5s => ({ k with key5s := false }, [])
  | .arm5s => ({ k with key5s := true }, [])
  | .setLevel0 => ({ k with keyLevel := 0 }, [])
  | .intrPosedge => ({ k with intr := .posedge }, [])
  | .disarm50ms => ({ k with key50ms := false }, [])
  | .arm50ms => ({ k with key50ms := true }, [])
  | .ifLow => (k, if k.pin then [] else [.longPress])
  | .longPress => ({ k with calls := k.calls ++ [.longPress] }, [])
  | .ifHigh => (k, if k.pin then [.disarm5s, .setLevel1, .intrNegedge, .shortPress] else [.intrPosedge])
  | .setLevel1 => ({ k with keyLevel := 1 }, [])
  | .intrNegedge => ({ k with intr := .negedge }, [])
  | .shortPress => ({ k with calls := k.calls ++ [.shortPress] }, [])

/-- The pin changes. -/
def toggle (k : Key) : Key :=
  { k with
    pin := !k.pin
    status := k.status || if k.pin then k.intr == .negedge else k.intr == .posedge }

/-! ### The keys together -/

variable {n : ℕ}

structure State (n : ℕ) where
  keys : Fin n → Key
  /-- What is left of `key_intr_handler`, while it runs. -/
  handler : Option (List (Fin n × Stmt))
  /-- What is left of a timer routine. -/
  task : List (Fin n × Stmt)

inductive Event (n : ℕ)
  /-- The pin of a key changes. -/
  | edge (i : Fin n)
  /-- The GPIO interrupt is taken. -/
  | interrupt
  /-- A timer runs out, and its routine begins. -/
  | key5s (i : Fin n)
  | key50ms (i : Fin n)
  /-- The next statement. -/
  | exec

def State.set (s : State n) (i : Fin n) (k : Key) : State n := { s with keys := Function.update s.keys i k }

/-- The bodies of the loop of `key_intr_handler`, for the keys in `gpio_status`. -/
def handlerOf (keys : Fin n → Key) : List (Fin n × Stmt) :=
  ((List.finRange n).filter fun i => (keys i).status).flatMap fun i => keyIntrHandler.map (Prod.mk i)

def step (s : State n) : Event n → Option (State n)
  | .edge i => some (s.set i (toggle (s.keys i)))
  | .interrupt =>
    if s.handler = none ∧ (List.finRange n).any (fun i => (s.keys i).status) = true then
      some { s with handler := some (handlerOf s.keys) }
    else none
  | .key5s i =>
    if s.handler = none ∧ s.task = [] ∧ (s.keys i).key5s = true then
      some { s.set i { s.keys i with key5s := false } with task := key5sCb.map (Prod.mk i) }
    else none
  | .key50ms i =>
    if s.handler = none ∧ s.task = [] ∧ (s.keys i).key50ms = true then
      some { s.set i { s.keys i with key50ms := false } with task := key50msCb.map (Prod.mk i) }
    else none
  | .exec =>
    match s.handler with
    | some ((i, st) :: rest) =>
      let r := exec (s.keys i) st
      some { s.set i r.1 with handler := some (r.2.map (Prod.mk i) ++ rest) }
    | some [] => some { s with handler := none }
    | none =>
      match s.task with
      | (i, st) :: rest =>
        let r := exec (s.keys i) st
        some { s.set i r.1 with task := r.2.map (Prod.mk i) ++ rest }
      | [] => none

/-- The keys after `key_init`. -/
def machine (pins : Fin n → Bool) : Machine (State n) (Event n) where
  init := ⟨fun i => ⟨pins i, .negedge, false, 1, false, false, []⟩, none, []⟩
  step := step

/-- The next statement. -/
def State.next (s : State n) : Option (Fin n × Stmt) :=
  match s.handler with
  | some hs => hs.head?
  | none => s.task.head?

/-- The key waits for an edge that has already been. -/
def Missed (k : Key) : Prop :=
  k.status = false ∧ (k.intr = .negedge ∧ k.pin = false ∨ k.intr = .posedge ∧ k.pin = true)

/-- When the interrupt of a pin is set, the pin has not changed yet. -/
def InTime (s : State n) : Event n → Prop
  | .exec => ∀ i, (s.next = some (i, .intrPosedge) → (s.keys i).pin = false) ∧
      (s.next = some (i, .intrNegedge) → (s.keys i).pin = true)
  | _ => True

/-! ### Where a key can be -/

def NotLong (calls : List Call) : Prop := calls.getLast? ≠ some .longPress

/-- A press of the key, by its level, its long timer, what is left of a timer routine of it,
and its calls: `long_press` is called once at most while it lasts. -/
inductive Press : UInt8 → Bool → List Stmt → List Call → Prop
  | none {calls : List Call} (h : NotLong calls) : Press 1 false [] calls
  | closing {calls : List Call} : Press 1 false [.shortPress] calls
  | held {key5s : Bool} {calls : List Call} (h : key5s = true → NotLong calls) : Press 0 key5s [] calls
  | again {key5s : Bool} {calls : List Call} : Press 0 key5s [.shortPress] calls
  | five1 {calls : List Call} (h : NotLong calls) : Press 0 false [.disarm5s, .ifLow] calls
  | five2 {calls : List Call} (h : NotLong calls) : Press 0 false [.ifLow] calls
  | five3 {calls : List Call} (h : NotLong calls) : Press 0 false [.longPress] calls

/-- The key, what is left of the handler for it, and what is left of a timer routine of it. -/
inductive Place : Key → List Stmt → List Stmt → Prop
  | up {pin status key5s : Bool} {calls : List Call} {ts : List Stmt} (h : Press 1 key5s ts calls) :
    Place ⟨pin, .negedge, status, 1, key5s, false, calls⟩ [] ts
  | down {pin status key5s : Bool} {calls : List Call} {ts : List Stmt} (h : Press 0 key5s ts calls) :
    Place ⟨pin, .posedge, status, 0, key5s, false, calls⟩ [] ts
  | wait {pin key5s : Bool} {calls : List Call} {ts : List Stmt} (h : Press 0 key5s ts calls) :
    Place ⟨pin, .disable, false, 0, key5s, true, calls⟩ [] ts
  -- the handler
  | entered {pin key5s : Bool} {intr : Intr} {level : UInt8} {calls : List Call} {ts : List Stmt}
    (hi : intr ≠ .disable) (h : Press level key5s ts calls) :
    Place ⟨pin, intr, true, level, key5s, false, calls⟩ [.intrDisable, .clearStatus, .ifLevel] ts
  | disabled {pin key5s : Bool} {level : UInt8} {calls : List Call} {ts : List Stmt} (h : Press level key5s ts calls) :
    Place ⟨pin, .disable, true, level, key5s, false, calls⟩ [.clearStatus, .ifLevel] ts
  | cleared {pin key5s : Bool} {level : UInt8} {calls : List Call} {ts : List Stmt} (h : Press level key5s ts calls) :
    Place ⟨pin, .disable, false, level, key5s, false, calls⟩ [.ifLevel] ts
  | press1 {pin key5s : Bool} {calls : List Call} {ts : List Stmt} (h : Press 1 key5s ts calls) :
    Place ⟨pin, .disable, false, 1, key5s, false, calls⟩ [.disarm5s, .arm5s, .setLevel0, .intrPosedge] ts
  | press2 {pin key5s : Bool} {calls : List Call} {ts : List Stmt} (h : Press 1 key5s ts calls) :
    Place ⟨pin, .disable, false, 1, key5s, false, calls⟩ [.arm5s, .setLevel0, .intrPosedge] ts
  | press3 {pin : Bool} {calls : List Call} {ts : List Stmt} (h : Press 1 false ts calls) :
    Place ⟨pin, .disable, false, 1, true, false, calls⟩ [.setLevel0, .intrPosedge] ts
  | press4 {pin key5s : Bool} {calls : List Call} {ts : List Stmt} (h : Press 0 key5s ts calls) :
    Place ⟨pin, .disable, false, 0, key5s, false, calls⟩ [.intrPosedge] ts
  | release1 {pin key5s : Bool} {calls : List Call} {ts : List Stmt} (h : Press 0 key5s ts calls) :
    Place ⟨pin, .disable, false, 0, key5s, false, calls⟩ [.disarm50ms, .arm50ms] ts
  | release2 {pin key5s : Bool} {calls : List Call} {ts : List Stmt} (h : Press 0 key5s ts calls) :
    Place ⟨pin, .disable, false, 0, key5s, false, calls⟩ [.arm50ms] ts
  -- `key_50ms_cb`
  | check1 {pin key5s : Bool} {calls : List Call} (h : key5s = true → NotLong calls) :
    Place ⟨pin, .disable, false, 0, key5s, false, calls⟩ [] [.disarm50ms, .ifHigh]
  | check2 {pin key5s : Bool} {calls : List Call} (h : key5s = true → NotLong calls) :
    Place ⟨pin, .disable, false, 0, key5s, false, calls⟩ [] [.ifHigh]
  | still {pin key5s : Bool} {calls : List Call} (h : key5s = true → NotLong calls) :
    Place ⟨pin, .disable, false, 0, key5s, false, calls⟩ [] [.intrPosedge]
  | close1 {pin key5s : Bool} {calls : List Call} :
    Place ⟨pin, .disable, false, 0, key5s, false, calls⟩ [] [.disarm5s, .setLevel1, .intrNegedge, .shortPress]
  | close2 {pin : Bool} {calls : List Call} :
    Place ⟨pin, .disable, false, 0, false, false, calls⟩ [] [.setLevel1, .intrNegedge, .shortPress]
  | close3 {pin : Bool} {calls : List Call} :
    Place ⟨pin, .disable, false, 1, false, false, calls⟩ [] [.intrNegedge, .shortPress]

variable {k : Key} {hs ts : List Stmt}

theorem toggle_disable (h : k.intr = .disable) : toggle k = { k with pin := !k.pin } := by
  have hno : (if k.pin = true then k.intr == .negedge else k.intr == .posedge) = false := by
    rw [h]
    split
    · rfl
    · rfl
  rw [toggle, hno, Bool.or_false]

theorem toggle_status (h : k.status = true) : toggle k = { k with pin := !k.pin } := by
  rw [toggle, h, Bool.true_or]

theorem Place.toggle (h : Place k hs ts) : Place (toggle k) hs ts := by
  cases h with
  | up h => exact .up h
  | down h => exact .down h
  | wait h => rw [toggle_disable rfl]; exact .wait h
  | entered hi h => rw [toggle_status rfl]; exact .entered hi h
  | disabled h => rw [toggle_disable rfl]; exact .disabled h
  | cleared h => rw [toggle_disable rfl]; exact .cleared h
  | press1 h => rw [toggle_disable rfl]; exact .press1 h
  | press2 h => rw [toggle_disable rfl]; exact .press2 h
  | press3 h => rw [toggle_disable rfl]; exact .press3 h
  | press4 h => rw [toggle_disable rfl]; exact .press4 h
  | release1 h => rw [toggle_disable rfl]; exact .release1 h
  | release2 h => rw [toggle_disable rfl]; exact .release2 h
  | check1 h => rw [toggle_disable rfl]; exact .check1 h
  | check2 h => rw [toggle_disable rfl]; exact .check2 h
  | still h => rw [toggle_disable rfl]; exact .still h
  | close1 => rw [toggle_disable rfl]; exact .close1
  | close2 => rw [toggle_disable rfl]; exact .close2
  | close3 => rw [toggle_disable rfl]; exact .close3

/-- The interrupt is taken for the key. -/
theorem Place.enter (h : Place k [] ts) (hs : k.status = true) : Place k keyIntrHandler ts := by
  cases h with
  | up h => obtain rfl := hs; exact .entered (by decide) h
  | down h => obtain rfl := hs; exact .entered (by decide) h
  | wait h => exact absurd hs Bool.false_ne_true
  | check1 h => exact absurd hs Bool.false_ne_true
  | check2 h => exact absurd hs Bool.false_ne_true
  | still h => exact absurd hs Bool.false_ne_true
  | close1 => exact absurd hs Bool.false_ne_true
  | close2 => exact absurd hs Bool.false_ne_true
  | close3 => exact absurd hs Bool.false_ne_true

/-- A statement of the handler. -/
theorem Place.execHandler {st : Stmt} (h : Place k (st :: hs) ts) :
    Place (exec k st).1 ((exec k st).2 ++ hs) ts := by
  cases h with
  | entered hi h => exact .disabled h
  | disabled h => exact .cleared h
  | cleared h =>
    cases h with
    | none h => exact .press1 (.none h)
    | closing => exact .press1 .closing
    | held h => exact .release1 (.held h)
    | again => exact .release1 .again
    | five1 h => exact .release1 (.five1 h)
    | five2 h => exact .release1 (.five2 h)
    | five3 h => exact .release1 (.five3 h)
  | press1 h =>
    cases h with
    | none h => exact .press2 (.none h)
    | closing => exact .press2 .closing
  | press2 h =>
    cases h with
    | none h => exact .press3 (.none h)
    | closing => exact .press3 .closing
  | press3 h =>
    cases h with
    | none h => exact .press4 (.held fun _ => h)
    | closing => exact .press4 .again
  | press4 h => exact .down h
  | release1 h => exact .release2 h
  | release2 h => exact .wait h

theorem notLong_short (calls : List Call) : NotLong (calls ++ [.shortPress]) := by
  rw [NotLong, List.getLast?_concat]
  decide

/-- A statement of a timer routine. -/
theorem Place.execTask {st : Stmt} (h : Place k [] (st :: ts)) : Place (exec k st).1 [] ((exec k st).2 ++ ts) := by
  cases h with
  | up h =>
    cases h with
    | closing => exact .up (.none (notLong_short _))
  | @down pin _ _ _ _ h =>
    cases h with
    | again => exact .down (.held fun _ => notLong_short _)
    | five1 h => exact .down (.five2 h)
    | five2 h =>
      cases pin with
      | true => exact .down (.held fun hc => absurd hc Bool.false_ne_true)
      | false => exact .down (.five3 h)
    | five3 h => exact .down (.held fun hc => absurd hc Bool.false_ne_true)
  | @wait pin _ _ _ h =>
    cases h with
    | again => exact .wait (.held fun _ => notLong_short _)
    | five1 h => exact .wait (.five2 h)
    | five2 h =>
      cases pin with
      | true => exact .wait (.held fun hc => absurd hc Bool.false_ne_true)
      | false => exact .wait (.five3 h)
    | five3 h => exact .wait (.held fun hc => absurd hc Bool.false_ne_true)
  | check1 h => exact .check2 h
  | @check2 pin _ _ h =>
    cases pin with
    | true => exact .close1
    | false => exact .still h
  | still h => exact .down (.held h)
  | close1 => exact .close2
  | close2 => exact .close3
  | close3 => exact .up .closing

/-- The long timer runs out. -/
theorem Place.begin5s (h : Place k [] []) (ht : k.key5s = true) : Place { k with key5s := false } [] key5sCb := by
  cases h with
  | up h =>
    cases h with
    | none h => exact absurd ht Bool.false_ne_true
  | down h =>
    cases h with
    | held h => exact .down (.five1 (h ht))
  | wait h =>
    cases h with
    | held h => exact .wait (.five1 (h ht))

/-- The short timer runs out. -/
theorem Place.begin50ms (h : Place k [] []) (ht : k.key50ms = true) :
    Place { k with key50ms := false } [] key50msCb := by
  cases h with
  | up h => exact absurd ht Bool.false_ne_true
  | down h => exact absurd ht Bool.false_ne_true
  | wait h =>
    cases h with
    | held h => exact .check1 h

/-! ### The statements of a key -/

/-- The statements of a key in what is left of a routine. -/
def mine (i : Fin n) (l : List (Fin n × Stmt)) : List Stmt := l.filterMap fun p => if p.1 = i then some p.2 else none

variable {i j : Fin n}

theorem mine_append (l l' : List (Fin n × Stmt)) : mine i (l ++ l') = mine i l ++ mine i l' := List.filterMap_append

theorem mine_cons_self (st : Stmt) (l : List (Fin n × Stmt)) : mine i ((i, st) :: l) = st :: mine i l :=
  List.filterMap_cons_some (if_pos rfl)

theorem mine_cons_ne (h : j ≠ i) (st : Stmt) (l : List (Fin n × Stmt)) : mine i ((j, st) :: l) = mine i l :=
  List.filterMap_cons_none (if_neg h)

theorem mine_map_self (sts : List Stmt) : mine i (sts.map (Prod.mk i)) = sts := by
  induction sts with
  | nil => rfl
  | cons st sts ih => rw [List.map_cons, mine_cons_self, ih]

theorem mine_map_ne (h : j ≠ i) (sts : List Stmt) : mine i (sts.map (Prod.mk j)) = [] := by
  induction sts with
  | nil => rfl
  | cons st sts ih => rw [List.map_cons, mine_cons_ne h, ih]

/-- The handler has a body for each key in the status. -/
theorem mine_handlerOf (keys : Fin n → Key) (i : Fin n) :
    mine i (handlerOf keys) = if (keys i).status = true then keyIntrHandler else [] := by
  have hl : ∀ l : List (Fin n), l.Nodup →
      mine i ((l.filter fun j => (keys j).status).flatMap fun j => keyIntrHandler.map (Prod.mk j)) =
        if i ∈ l ∧ (keys i).status = true then keyIntrHandler else [] := by
    intro l hl
    induction l with
    | nil => rw [if_neg fun h => absurd h.1 List.not_mem_nil]; rfl
    | cons j l ih =>
      obtain ⟨hj, hl⟩ := List.nodup_cons.mp hl
      rw [List.filter_cons]
      by_cases hji : j = i
      · subst hji
        have hrest :
            mine j ((l.filter fun j => (keys j).status).flatMap fun j => keyIntrHandler.map (Prod.mk j)) = [] := by
          rw [ih hl, if_neg fun h => hj h.1]
        by_cases hs : (keys j).status = true
        · rw [if_pos hs, List.flatMap_cons, mine_append, mine_map_self, hrest, List.append_nil,
            if_pos ⟨List.mem_cons_self, hs⟩]
        · rw [if_neg hs, hrest, if_neg fun h => hs h.2]
      · have hmem : i ∈ j :: l ↔ i ∈ l := by
          rw [List.mem_cons]
          exact or_iff_right fun h => hji h.symm
        simp only [hmem]
        rw [← ih hl]
        by_cases hs : (keys j).status = true
        · rw [if_pos hs, List.flatMap_cons, mine_append, mine_map_ne hji, List.nil_append]
        · rw [if_neg hs]
  rw [handlerOf, hl _ (List.nodup_finRange n)]
  simp only [List.mem_finRange, true_and]

/-! ### What a step does to a key -/

/-- What can become of a key and of what is left for it, by a statement of it or without. -/
inductive KeyStep (k : Key) : Option Stmt → List Stmt → List Stmt → Key → List Stmt → List Stmt → Prop
  | same {hs ts : List Stmt} : KeyStep k none hs ts k hs ts
  | toggle {hs ts : List Stmt} : KeyStep k none hs ts (toggle k) hs ts
  | enter {ts : List Stmt} (h : k.status = true) : KeyStep k none [] ts k keyIntrHandler ts
  | handler {st : Stmt} {hs ts : List Stmt} :
    KeyStep k (some st) (st :: hs) ts (exec k st).1 ((exec k st).2 ++ hs) ts
  | task {st : Stmt} {ts : List Stmt} : KeyStep k (some st) [] (st :: ts) (exec k st).1 [] ((exec k st).2 ++ ts)
  | begin5s (h : k.key5s = true) : KeyStep k none [] [] { k with key5s := false } [] key5sCb
  | begin50ms (h : k.key50ms = true) : KeyStep k none [] [] { k with key50ms := false } [] key50msCb

/-- The statement of a key that an event executes. -/
def stmtOf (s : State n) (e : Event n) (i : Fin n) : Option Stmt :=
  match e, s.next with
  | .exec, some (j, st) => if j = i then some st else none
  | _, _ => none

theorem stmtOf_exec {s : State n} {st : Stmt} : stmtOf s .exec i = some st ↔ s.next = some (i, st) := by
  unfold stmtOf
  cases s.next with
  | none => simp
  | some p =>
    obtain ⟨j, st'⟩ := p
    by_cases h : j = i
    · simp [h]
    · simp [h]

/-- What is left of the handler for a key, and of a timer routine. -/
def State.ofHandler (s : State n) (i : Fin n) : List Stmt := mine i (s.handler.getD [])

def State.ofTask (s : State n) (i : Fin n) : List Stmt := mine i s.task

theorem ofHandler_none {s : State n} (h : s.handler = none) (i : Fin n) : s.ofHandler i = [] := by
  rw [State.ofHandler, h]
  rfl

theorem ofTask_nil {s : State n} (h : s.task = []) (i : Fin n) : s.ofTask i = [] := by
  rw [State.ofTask, h]
  rfl

theorem stmtOf_of_next {s : State n} {st : Stmt} (h : s.next = some (j, st)) (i : Fin n) :
    stmtOf s .exec i = if j = i then some st else none := by
  simp only [stmtOf, h]

/-- A timer routine of the key `j` begins. -/
theorem keyStep_begin {s : State n} {k' : Key} {cb : List Stmt} (hh : s.handler = none) (ht : s.task = [])
    (hb : KeyStep (s.keys j) none [] [] k' [] cb) (i : Fin n) :
    KeyStep (s.keys i) none (s.ofHandler i) (s.ofTask i) (Function.update s.keys j k' i) (s.ofHandler i)
      (mine i (cb.map (Prod.mk j))) := by
  rw [ofHandler_none hh, ofTask_nil ht]
  by_cases hj : j = i
  · subst hj
    rw [Function.update_self, mine_map_self]
    exact hb
  · rw [Function.update_of_ne (Ne.symm hj), mine_map_ne hj]
    exact .same

/-- The handler executes a statement of the key `j`. -/
theorem keyStep_handler {s : State n} {st : Stmt} {rest : List (Fin n × Stmt)}
    (hh : s.handler = some ((j, st) :: rest)) (i : Fin n) :
    KeyStep (s.keys i) (stmtOf s .exec i) (s.ofHandler i) (s.ofTask i)
      (Function.update s.keys j (exec (s.keys j) st).1 i)
      (mine i ((exec (s.keys j) st).2.map (Prod.mk j) ++ rest)) (s.ofTask i) := by
  have hs : s.ofHandler i = mine i ((j, st) :: rest) := by
    rw [State.ofHandler, hh]
    rfl
  have hnext : s.next = some (j, st) := by simp only [State.next, hh, List.head?]
  rw [hs, stmtOf_of_next hnext]
  by_cases hj : j = i
  · subst hj
    rw [if_pos rfl, mine_cons_self, Function.update_self, mine_append, mine_map_self]
    exact .handler
  · rw [if_neg hj, mine_cons_ne hj, Function.update_of_ne (Ne.symm hj), mine_append, mine_map_ne hj]
    exact .same

/-- A timer routine executes a statement of the key `j`. -/
theorem keyStep_task {s : State n} {st : Stmt} {rest : List (Fin n × Stmt)} (hh : s.handler = none)
    (ht : s.task = (j, st) :: rest) (i : Fin n) :
    KeyStep (s.keys i) (stmtOf s .exec i) (s.ofHandler i) (s.ofTask i)
      (Function.update s.keys j (exec (s.keys j) st).1 i)
      (s.ofHandler i) (mine i ((exec (s.keys j) st).2.map (Prod.mk j) ++ rest)) := by
  have hts : s.ofTask i = mine i ((j, st) :: rest) := by rw [State.ofTask, ht]
  have hnext : s.next = some (j, st) := by simp only [State.next, hh, ht, List.head?]
  rw [ofHandler_none hh, hts, stmtOf_of_next hnext]
  by_cases hj : j = i
  · subst hj
    rw [if_pos rfl, mine_cons_self, Function.update_self, mine_append, mine_map_self]
    exact .task
  · rw [if_neg hj, mine_cons_ne hj, Function.update_of_ne (Ne.symm hj), mine_append, mine_map_ne hj]
    exact .same

theorem keyStep_of_step {s s' : State n} {e : Event n} (h : step s e = some s') (i : Fin n) :
    KeyStep (s.keys i) (stmtOf s e i) (s.ofHandler i) (s.ofTask i) (s'.keys i) (s'.ofHandler i) (s'.ofTask i) := by
  cases e with
  | edge j =>
    obtain rfl := Option.some.inj h
    show KeyStep _ none _ _ (Function.update s.keys j (toggle (s.keys j)) i) _ _
    by_cases hj : j = i
    · subst hj
      rw [Function.update_self]
      exact .toggle
    · rw [Function.update_of_ne (Ne.symm hj)]
      exact .same
  | interrupt =>
    simp only [step] at h
    split at h
    · rename_i hc
      obtain rfl := Option.some.inj h
      show KeyStep _ none (s.ofHandler i) _ (s.keys i) (mine i (handlerOf s.keys)) _
      rw [ofHandler_none hc.1, mine_handlerOf]
      by_cases hst : (s.keys i).status = true
      · rw [if_pos hst]
        exact .enter hst
      · rw [if_neg hst]
        exact .same
    · exact absurd h.symm (Option.some_ne_none _)
  | key5s j =>
    simp only [step] at h
    split at h
    · rename_i hc
      obtain rfl := Option.some.inj h
      exact keyStep_begin hc.1 hc.2.1 (.begin5s hc.2.2) i
    · exact absurd h.symm (Option.some_ne_none _)
  | key50ms j =>
    simp only [step] at h
    split at h
    · rename_i hc
      obtain rfl := Option.some.inj h
      exact keyStep_begin hc.1 hc.2.1 (.begin50ms hc.2.2) i
    · exact absurd h.symm (Option.some_ne_none _)
  | exec =>
    simp only [step] at h
    split at h
    · rename_i j st rest hh
      obtain rfl := Option.some.inj h
      exact keyStep_handler hh i
    · -- the handler comes to its end
      rename_i hh
      obtain rfl := Option.some.inj h
      have hs : s.ofHandler i = [] := by rw [State.ofHandler, hh]; rfl
      have hn : stmtOf s .exec i = none := by simp only [stmtOf, State.next, hh, List.head?]
      show KeyStep _ (stmtOf s .exec i) (s.ofHandler i) (s.ofTask i) (s.keys i) [] (s.ofTask i)
      rw [hs, hn]
      exact .same
    · rename_i hh
      split at h
      · rename_i j st rest ht
        obtain rfl := Option.some.inj h
        exact keyStep_task hh ht i
      · exact absurd h.symm (Option.some_ne_none _)

theorem Place.step {st : Option Stmt} {k k' : Key} {hs ts hs' ts' : List Stmt} (hp : Place k hs ts)
    (h : KeyStep k st hs ts k' hs' ts') : Place k' hs' ts' := by
  cases h with
  | same => exact hp
  | toggle => exact hp.toggle
  | enter h => exact hp.enter h
  | handler => exact hp.execHandler
  | task => exact hp.execTask
  | begin5s h => exact hp.begin5s h
  | begin50ms h => exact hp.begin50ms h

/-! ### Missed edges -/

theorem exec_not_missed (hm : ¬ Missed k) {st : Stmt} (hclear : st = .clearStatus → k.intr = .disable)
    (hin : (st = .intrPosedge → k.pin = false) ∧ (st = .intrNegedge → k.pin = true)) : ¬ Missed (exec k st).1 := by
  cases st with
  | intrDisable => rintro ⟨-, ⟨hi, -⟩ | ⟨hi, -⟩⟩ <;> cases hi
  | clearStatus =>
    rintro ⟨-, ⟨hi, -⟩ | ⟨hi, -⟩⟩
    · cases (hclear rfl).symm.trans hi
    · cases (hclear rfl).symm.trans hi
  | ifLevel =>
    show ¬ Missed (if k.keyLevel = 1 then (k, _) else (k, _)).1
    split
    · exact hm
    · exact hm
  | intrPosedge =>
    rintro ⟨-, ⟨hi, -⟩ | ⟨-, hp⟩⟩
    · cases hi
    · exact Bool.false_ne_true ((hin.1 rfl).symm.trans hp)
  | intrNegedge =>
    rintro ⟨-, ⟨-, hp⟩ | ⟨hi, -⟩⟩
    · exact Bool.false_ne_true (hp.symm.trans (hin.2 rfl))
    · cases hi
  | _ => exact hm

theorem toggle_not_missed (k : Key) : ¬ Missed (toggle k) := by
  rintro ⟨hs, hi⟩
  obtain ⟨hs, hl⟩ := Bool.or_eq_false_iff.mp hs
  rcases hi with ⟨hi, hp⟩ | ⟨hi, hp⟩
  · have hpin : k.pin = true := by simpa [toggle] using hp
    rw [if_pos hpin] at hl
    simp [show k.intr = .negedge from hi] at hl
  · have hpin : k.pin = false := by simpa [toggle] using hp
    rw [hpin, if_neg Bool.false_ne_true] at hl
    simp [show k.intr = .posedge from hi] at hl

variable {k' : Key} {hs' ts' : List Stmt}

/-- An edge is missed only where an interrupt is set too late. -/
theorem KeyStep.not_missed {st : Option Stmt} (h : KeyStep k st hs ts k' hs' ts') (hp : Place k hs ts) (hm : ¬ Missed k)
    (hin : (st = some .intrPosedge → k.pin = false) ∧ (st = some .intrNegedge → k.pin = true)) : ¬ Missed k' := by
  cases h with
  | same => exact hm
  | toggle => exact toggle_not_missed k
  | enter h => exact hm
  | handler =>
    refine exec_not_missed hm (fun hc => ?_) ⟨fun hc => hin.1 (congrArg some hc), fun hc => hin.2 (congrArg some hc)⟩
    subst hc
    cases hp with
    | disabled h => rfl
  | task =>
    refine exec_not_missed hm (fun hc => ?_) ⟨fun hc => hin.1 (congrArg some hc), fun hc => hin.2 (congrArg some hc)⟩
    subst hc
    cases hp with
    | up h => cases h
    | down h => cases h
    | wait h => cases h
  | begin5s h => exact hm
  | begin50ms h => exact hm

/-- An interrupt that is set too late misses the edge. -/
theorem KeyStep.missed {st : Option Stmt} (h : KeyStep k st hs ts k' hs' ts') (hp : Place k hs ts)
    (hst : st = some .intrPosedge ∧ k.pin = true ∨ st = some .intrNegedge ∧ k.pin = false) : Missed k' := by
  rcases hst with ⟨rfl, hpin⟩ | ⟨rfl, hpin⟩
  · cases h with
    | handler =>
      cases hp with
      | press4 h => exact ⟨rfl, Or.inr ⟨rfl, hpin⟩⟩
    | task =>
      cases hp with
      | up h => cases h
      | down h => cases h
      | wait h => cases h
      | still h => exact ⟨rfl, Or.inr ⟨rfl, hpin⟩⟩
  · cases h with
    | handler => cases hp
    | task =>
      cases hp with
      | up h => cases h
      | down h => cases h
      | wait h => cases h
      | close3 => exact ⟨rfl, Or.inl ⟨rfl, hpin⟩⟩

/-! ### Runs -/

/-- Every key is at a place. -/
def Placed (s : State n) : Prop := ∀ i, Place (s.keys i) (s.ofHandler i) (s.ofTask i)

theorem placed_init (pins : Fin n → Bool) : Placed (machine pins).init := fun _ =>
  .up (.none (Option.some_ne_none _).symm)

theorem placed_step {s s' : State n} {e : Event n} (hp : Placed s) (h : step s e = some s') : Placed s' :=
  fun i => (hp i).step (keyStep_of_step h i)

theorem inTime_iff {s : State n} {e : Event n} : InTime s e ↔ ∀ i,
    (stmtOf s e i = some .intrPosedge → (s.keys i).pin = false) ∧
      (stmtOf s e i = some .intrNegedge → (s.keys i).pin = true) := by
  cases e with
  | exec => simp only [InTime, stmtOf_exec]
  | _ =>
    refine ⟨fun _ i => ?_, fun _ => trivial⟩
    exact ⟨fun h => absurd h.symm (Option.some_ne_none _), fun h => absurd h.symm (Option.some_ne_none _)⟩

theorem missed_step {s s' : State n} {e : Event n} (hp : Placed s) (h : step s e = some s') (hin : ¬ InTime s e) :
    ∃ i, Missed (s'.keys i) := by
  rw [inTime_iff, not_forall] at hin
  obtain ⟨i, hi⟩ := hin
  refine ⟨i, (keyStep_of_step h i).missed (hp i) ?_⟩
  rw [not_and_or, Classical.not_imp, Classical.not_imp, Bool.not_eq_false, Bool.not_eq_true] at hi
  exact hi

/-- **When no edge is missed.** In a run no key waits for an edge that has already been, if
and only if all the keys are up at first, and whenever a statement sets the interrupt of a
pin to an edge the pin still has the level before it. -/
theorem never_missed_iff (pins : Fin n → Bool) (es : List (Event n)) :
    (machine pins).Throughout (fun s => ∀ i, ¬ Missed (s.keys i)) (machine pins).init es ↔
      (∀ i, pins i = true) ∧ (machine pins).Along InTime (machine pins).init es := by
  by_cases hpins : ∀ i, pins i = true
  · have hiff := (machine pins).throughout_iff_along (I := fun s => Placed s ∧ ∀ i, ¬ Missed (s.keys i))
      (P := fun s => ∀ i, ¬ Missed (s.keys i)) (C := InTime) (fun s h => h.2)
      (fun s e s' h hin hs => ⟨placed_step h.1 hs, fun i =>
        (keyStep_of_step hs i).not_missed (h.1 i) (h.2 i) (inTime_iff.mp hin i)⟩)
      (fun s e s' h hin hs hm => by
        obtain ⟨i, hi⟩ := missed_step h.1 hs hin
        exact hm i hi)
      (s := (machine pins).init) ⟨placed_init pins, fun i hm => ?_⟩ es
    · rw [hiff]
      exact (and_iff_right hpins).symm
    · rcases hm.2 with ⟨-, hp⟩ | ⟨hi, -⟩
      · exact Bool.false_ne_true (hp.symm.trans (hpins i))
      · cases hi
  · constructor
    · intro h
      refine absurd (fun i => ?_) hpins
      have hm := h.start (machine pins) i
      by_contra hp
      exact hm ⟨rfl, Or.inl ⟨rfl, Bool.eq_false_iff.mpr hp⟩⟩
    · exact fun h => absurd h.1 hpins

/-! ### Presses -/

/-- The presses that the handler has taken. -/
def presses (g : Fin n → ℕ) (s : State n) (e : Event n) : Fin n → ℕ :=
  fun i => if stmtOf s e i = some .setLevel0 then g i + 1 else g i

def counted (pins : Fin n → Bool) : Machine (State n × (Fin n → ℕ)) (Event n) :=
  (machine pins).history (fun _ => 0) presses

/-- The press that lasts, by the level of the key. -/
def lasting (keyLevel : UInt8) : ℕ := if keyLevel = 0 then 1 else 0

/-- What can be called after a function. -/
def Follows (a b : Call) : Prop := a = .longPress → b = .shortPress

/-- What has come of the presses of a key. -/
structure Answered (s : State n) (taken : ℕ) (i : Fin n) : Prop where
  /-- With no timer routine running, each of them but the one that lasts has had its `short_press`. -/
  shorts : s.task = [] →
    taken = (s.keys i).calls.count .shortPress + lasting (s.keys i).keyLevel
  /-- There is a `short_press` between two calls of `long_press`. -/
  longs : (s.keys i).calls.IsChain Follows
  /-- A key without an interrupt has a timer, or a routine is at work on it. -/
  alive : (s.keys i).intr = .disable → (s.keys i).key50ms = true ∨ s.ofHandler i ≠ [] ∨ s.ofTask i ≠ []

/-- The same in the middle of a timer routine. -/
def Counted (taken : ℕ) (k : Key) (ts : List Stmt) : Prop :=
  taken + ts.count .setLevel1 =
    k.calls.count .shortPress + lasting k.keyLevel + ts.count .shortPress

/-- A timer routine. -/
theorem Counted.task {st : Stmt} {taken : ℕ} (hc : Counted taken k (st :: ts))
    (h1 : st = .setLevel1 → k.keyLevel = 0) (h0 : st ≠ .setLevel0) :
    Counted taken (exec k st).1 ((exec k st).2 ++ ts) := by
  unfold Counted at hc ⊢
  cases st with
  | setLevel0 => exact absurd rfl h0
  | setLevel1 =>
    simp [exec, h1 rfl, lasting] at hc ⊢
    omega
  | shortPress =>
    simp [exec] at hc ⊢
    omega
  | ifHigh =>
    simp only [exec]
    split
    · simp at hc ⊢
      omega
    · simpa using hc
  | ifLow =>
    simp only [exec]
    split
    · simpa using hc
    · simpa using hc
  | ifLevel =>
    simp only [exec]
    split
    · simpa using hc
    · simpa using hc
  | _ => simpa [exec] using hc

theorem Counted.step {st : Option Stmt} {taken : ℕ} (hc : Counted taken k ts) (hp : Place k hs ts)
    (h : KeyStep k st hs ts k' hs' ts') : Counted (if st = some .setLevel0 then taken + 1 else taken) k' ts' := by
  cases h with
  | same => exact hc
  | toggle => exact hc
  | enter h => exact hc
  | handler =>
    cases hp with
    | cleared h =>
      rw [if_neg (by decide)]
      simp only [exec]
      split
      · exact hc
      · exact hc
    | press3 h =>
      unfold Counted at hc ⊢
      simp [exec, lasting] at hc ⊢
      omega
    | _ => exact hc
  | @task st ts =>
    have h1 : st = .setLevel1 → k.keyLevel = 0 := by
      rintro rfl
      cases hp with
      | up h => cases h
      | down h => rfl
      | wait h => rfl
      | close2 => rfl
    have h0 : st ≠ .setLevel0 := by
      rintro rfl
      cases hp with
      | up h => cases h
      | down h => cases h
      | wait h => cases h
    rw [if_neg fun he => h0 (Option.some.inj he)]
    exact hc.task h1 h0
  | begin5s h => exact hc
  | begin50ms h => exact hc

/-- A `long_press` is called for a press that had none. -/
theorem Place.notLong (hp : Place k [] (.longPress :: ts)) : NotLong k.calls := by
  cases hp with
  | up h => cases h
  | down h =>
    cases h with
    | five3 h => exact h
  | wait h =>
    cases h with
    | five3 h => exact h

theorem chain_concat {calls : List Call} {c : Call} (h : calls.IsChain Follows) (hc : NotLong calls ∨ c = .shortPress) :
    (calls ++ [c]).IsChain Follows := by
  refine List.isChain_append.mpr ⟨h, List.isChain_singleton c, fun a ha b hb hl => ?_⟩
  obtain rfl := Option.some.inj hb
  rcases hc with hc | rfl
  · subst hl
    exact absurd ha hc
  · rfl

theorem exec_calls (k : Key) (st : Stmt) : (exec k st).1.calls = k.calls ∨
    (st = .longPress ∧ (exec k st).1.calls = k.calls ++ [.longPress]) ∨
    (exec k st).1.calls = k.calls ++ [.shortPress] := by
  cases st with
  | ifLevel =>
    left
    simp only [exec]
    split
    · rfl
    · rfl
  | longPress => exact Or.inr (Or.inl ⟨rfl, rfl⟩)
  | shortPress => exact Or.inr (Or.inr rfl)
  | _ => exact Or.inl rfl

theorem KeyStep.longs {st : Option Stmt} (h : KeyStep k st hs ts k' hs' ts') (hp : Place k hs ts)
    (hc : k.calls.IsChain Follows) : k'.calls.IsChain Follows := by
  have hexec (st : Stmt) (hl : st = .longPress → NotLong k.calls) : (exec k st).1.calls.IsChain Follows := by
    rcases exec_calls k st with he | ⟨hst, he⟩ | he
    · rwa [he]
    · rw [he]
      exact chain_concat hc (Or.inl (hl hst))
    · rw [he]
      exact chain_concat hc (Or.inr rfl)
  cases h with
  | same => exact hc
  | toggle => exact hc
  | enter h => exact hc
  | handler =>
    refine hexec _ fun hst => ?_
    subst hst
    cases hp
  | task =>
    refine hexec _ fun hst => ?_
    subst hst
    exact hp.notLong
  | begin5s h => exact hc
  | begin50ms h => exact hc

theorem Place.alive (hp : Place k hs ts) (hi : k.intr = .disable) : k.key50ms = true ∨ hs ≠ [] ∨ ts ≠ [] := by
  cases hp with
  | up h => cases hi
  | down h => cases hi
  | wait h => exact Or.inl rfl
  | check1 h => exact Or.inr (Or.inr (List.cons_ne_nil _ _))
  | check2 h => exact Or.inr (Or.inr (List.cons_ne_nil _ _))
  | still h => exact Or.inr (Or.inr (List.cons_ne_nil _ _))
  | close1 => exact Or.inr (Or.inr (List.cons_ne_nil _ _))
  | close2 => exact Or.inr (Or.inr (List.cons_ne_nil _ _))
  | close3 => exact Or.inr (Or.inr (List.cons_ne_nil _ _))
  | _ => exact Or.inr (Or.inl (List.cons_ne_nil _ _))

/-- What a run keeps of each key and the presses taken of it. -/
structure Inv (s : State n × (Fin n → ℕ)) : Prop where
  placed : Placed s.1
  counted : ∀ i, Counted (s.2 i) (s.1.keys i) (s.1.ofTask i)
  longs : ∀ i, (s.1.keys i).calls.IsChain Follows

theorem inv_init (pins : Fin n → Bool) : Inv (counted pins).init where
  placed := placed_init pins
  counted _ := rfl
  longs _ := List.isChain_nil

theorem inv_step (pins : Fin n → Bool) (s : State n × (Fin n → ℕ)) (e : Event n) (s' : State n × (Fin n → ℕ))
    (h : Inv s) (hs : (counted pins).step s e = some s') : Inv s' := by
  obtain ⟨t, g⟩ := s'
  obtain ⟨hstep, rfl⟩ := Machine.history_step.mp hs
  exact ⟨placed_step h.placed hstep, fun i => (h.counted i).step (h.placed i) (keyStep_of_step hstep i),
    fun i => (keyStep_of_step hstep i).longs (h.placed i) (h.longs i)⟩

theorem Inv.answered {s : State n × (Fin n → ℕ)} (h : Inv s) (i : Fin n) : Answered s.1 (s.2 i) i where
  shorts ht := by
    have hc := h.counted i
    rw [Counted, State.ofTask, ht] at hc
    exact hc
  longs := h.longs i
  alive := (h.placed i).alive

/-- **Every press is answered once.** Whenever no timer routine runs, each press that the
handler has taken of a key has had one `short_press`, but for the one that lasts; between two
calls of `long_press` there is a `short_press`; and a key whose interrupt is disabled has its
timer of 50 ms, or a routine is at work on it. -/
theorem presses_answered (pins : Fin n → Bool) (es : List (Event n)) :
    (counted pins).Throughout (fun s => ∀ i, Answered s.1 (s.2 i) i) (counted pins).init es :=
  ((counted pins).throughout_of_inv (inv_step pins) (inv_init pins) es).mono (counted pins) fun _ h => h.answered

end Keys
end Netacademia
