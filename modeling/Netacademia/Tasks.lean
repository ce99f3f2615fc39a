/-
# Where a task can be

What is left of the running task is a tail of one of nine statement lists, the
bodies of the tasks and of their branches, or the test of a received segment.
A fact about the order of the statements is checked on these tails, once, and
holds in every state of every run (`Cont.all`, `cont_step`).
-/
import Mathlib.Data.List.Infix
import Netacademia.Firmware

namespace Netacademia
namespace Tasks

open Lib Dht Firmware

/-- The tasks and their branches, but for the test of a segment. -/
def bodies : List (List Stmt) :=
  [userInit, dhtTimerCbk, timeout ++ dhtGpioCbkSetup, mainTask .dhtHandle, mainTaskCase .err, mainTaskCase .compl,
    [.clearDaemonSts], [.daemonRequest false], daemonHandleAnswer .dhtGet]

/-- Their tails. -/
def tails : List (List Stmt) := bodies.flatMap List.tails

/-- What can be left of a task. -/
def Cont (cont : List Stmt) : Prop := (∃ pdata stack, cont = [.ifAnswer pdata stack]) ∨ cont ∈ tails

theorem mem_tails {cont : List Stmt} : cont ∈ tails ↔ ∃ body ∈ bodies, cont <:+ body := by
  simp only [tails, List.mem_flatMap, List.mem_tails]

theorem tail_mem {c : Stmt} {rest : List Stmt} (h : c :: rest ∈ tails) : rest ∈ tails := by
  obtain ⟨body, hb, hs⟩ := mem_tails.mp h
  exact mem_tails.mpr ⟨body, hb, (List.suffix_cons c rest).trans hs⟩

theorem body_mem {body : List Stmt} (h : body ∈ bodies) : body ∈ tails :=
  mem_tails.mpr ⟨body, h, List.suffix_rfl⟩

/-- A fact checked on the tails holds of all that can be left of a task. -/
theorem Cont.all {P : List Stmt → Prop} (hanswer : ∀ pdata stack, P [.ifAnswer pdata stack])
    (htails : ∀ cont ∈ tails, P cont) {cont : List Stmt} (h : Cont cont) : P cont := by
  rcases h with ⟨pdata, stack, rfl⟩ | h
  · exact hanswer pdata stack
  · exact htails cont h

/-- The branches end their tasks, except for the time-out, which goes on with
the setup. -/
def Branches : List Stmt → Bool
  | .ifTimeout :: rest => rest == dhtGpioCbkSetup
  | .switchState :: rest => rest.isEmpty
  | .ifAnswer _ _ :: rest => rest.isEmpty
  | _ => true

theorem Cont.branches {cont : List Stmt} (h : Cont cont) : Branches cont = true :=
  Cont.all (P := fun cont => Branches cont = true) (fun _ _ => rfl) (by decide) h

/-! ### The steps -/

theorem cont_init : Cont firmware.init.cont := Or.inr (by decide)

theorem cont_task {b b' : Board} {e : Event} {task : List Stmt} (h : taskOf b e = some (b', task)) : Cont task := by
  rcases taskOf_cases h with ⟨-, -, -, rfl⟩ | ⟨p, q, -, -, -, rfl⟩ | ⟨-, rfl | rfl | ⟨pdata, stack, rfl⟩⟩
  · exact Or.inr (body_mem (by decide))
  · cases p <;> exact Or.inr (by decide)
  · exact Or.inr (body_mem (by decide))
  · exact Or.inr (body_mem (by decide))
  · exact Or.inl ⟨pdata, stack, rfl⟩

/-- A statement leads to its rest, or to a branch. -/
theorem cont_exec (now : UInt32) (s : Fw) {c : Stmt} {rest : List Stmt} (h : Cont (c :: rest)) :
    Cont ((exec now s c).2 ++ rest) := by
  have hb := h.branches
  have hrest : Cont rest := by
    rcases h with ⟨pdata, stack, he⟩ | h
    · obtain ⟨-, rfl⟩ := List.cons.inj he
      exact Or.inr (by decide)
    · exact Or.inr (tail_mem h)
  cases c with
  | ifTimeout =>
    obtain rfl : rest = dhtGpioCbkSetup := by simpa [Branches] using hb
    simp only [exec]
    split
    · exact Or.inr (body_mem (by decide))
    · exact hrest
  | switchState =>
    obtain rfl : rest = [] := by simpa [Branches] using hb
    simp only [exec]
    cases s.board.dhtHandle.state with
    | err => exact Or.inr (body_mem (by decide))
    | compl => exact Or.inr (body_mem (by decide))
    | _ => exact hrest
  | ifAnswer pdata stack =>
    obtain rfl : rest = [] := by simpa [Branches] using hb
    simp only [exec]
    cases DaemonHandle.answer pdata stack with
    | unhandled => exact hrest
    | _ => exact Or.inr (body_mem (by decide))
  | _ => exact hrest

theorem cont_step {s s' : Fw} {e : Event} (h : Cont s.cont) (hs : firmware.step s e = some s') : Cont s'.cont := by
  rcases step_cases hs with ⟨gs, n, n', -, -, rfl⟩ | ⟨b, task, ht, -, rfl⟩ | ⟨now, c, rest, -, hc, rfl⟩
  · exact h
  · exact cont_task ht
  · exact cont_exec now s (hc ▸ h)

end Tasks
end Netacademia
