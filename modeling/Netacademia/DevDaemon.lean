/-
# The development client and its daemon

`development/user/daemon-handle.c` with `ReadSocket` of `development/server.py`. The
client asks when it is connected and says hello when it is connected again; what it
receives it prints, so it never reports, and `daemonSts` stays as `daemonConInit` left it.
The daemon waits for the report.

* `one_dhtGet`: however the connections come and their bytes are cut, the daemon replies
  to one string at most, with `DHT_GET`, and waits for ever after.
-/
import Mathlib.Data.List.Chain
import Netacademia.Daemons
import Netacademia.Lib.Machine

namespace Netacademia
namespace DevDaemon

open Lib Daemons

def TCPHELLO : List UInt8 := ascii ['T', 'C', 'P', 'H', 'E', 'L', 'L', 'O']

/-- What `daemonRequest` gives to `espconn_send`. -/
def daemonRequest (daemonSts : UInt8) : List UInt8 := if daemonSts = 0 then DAEMON_ASK else []

structure System where
  daemonSts : UInt8
  /-- What was written to each connection that the daemon has not taken, the last one being
  the one of the client. -/
  waiting : List (List UInt8)
  /-- `cmdsts` of the daemon, and its replies with the strings they were sent for. -/
  daemon : ℕ × Sent

inductive Event
  /-- `initSockets`, which calls `daemonConInit`. -/
  | initSockets
  /-- The client is connected: `daemonConnCbk`; its send is accepted or not. -/
  | connCbk (accepted : Bool)
  /-- `daemonReconnCbk`, likewise. -/
  | reconnCbk (accepted : Bool)
  /-- `daemonConRecvCbk`, which only prints; a reply of the daemon fits its buffer. -/
  | recvCbk (pdata : List UInt8)
  /-- The daemon takes the first connection, and `recv(1024)` returns `n` bytes. -/
  | serve (n : ℕ)

/-- `bytes` are written to the last connection, if the daemon has not taken it. -/
def write (bytes : List UInt8) : List (List UInt8) → List (List UInt8)
  | [] => []
  | [c] => [c ++ bytes]
  | c :: cs => c :: write bytes cs

def step (s : System) : Event → Option System
  | .initSockets => some { s with daemonSts := 0 }
  | .connCbk accepted =>
    some { s with waiting := s.waiting ++ [if accepted then daemonRequest s.daemonSts else []] }
  | .reconnCbk accepted => some { s with waiting := if accepted then write TCPHELLO s.waiting else s.waiting }
  | .recvCbk _ => some s
  | .serve n =>
    match s.waiting with
    | [] => none
    | c :: cs =>
      if n ≤ 1024 ∧ n ≤ c.length then some { s with waiting := cs, daemon := readStep s.daemon (c.take n) }
      else none

def system : Machine System Event := ⟨⟨0, [], (0, [])⟩, step⟩

/-- The daemon has sent nothing, or one `DHT_GET`. -/
def OneDhtGet (s : System) : Prop := s.daemon = (0, []) ∨ ∃ data, s.daemon = (1, [(.dhtGet, data)])

/-! ### What the client writes -/

/-- A `T` goes on with a `C`. -/
def Hello (a b : UInt8) : Prop := a = 84 → b = 67

instance : DecidableRel Hello := fun a b => inferInstanceAs (Decidable (a = 84 → b = 67))

/-- What can be on a connection: `T` stands in `TCP` only, and not at the end. -/
def Plain (bytes : List UInt8) : Prop := bytes.IsChain Hello ∧ bytes.getLast? ≠ some 84

/-- A part of it has no `TEMP` in it. -/
theorem occurs_temp {bytes : List UInt8} (h : bytes.IsChain Hello) (n : ℕ) :
    occurs TEMP (bytes.take n) = false := by
  rw [← Bool.not_eq_true, occurs_iff]
  rintro ⟨before, after, hbytes⟩
  have hchain : (before ++ TEMP ++ after).IsChain Hello := hbytes ▸ h.take n
  have htemp : TEMP.IsChain Hello := (List.isChain_append.mp (List.isChain_append.mp hchain).1).2.1
  exact absurd htemp (by decide)

theorem Plain.append {bytes bytes' : List UInt8} (h : Plain bytes) (h' : Plain bytes') (hne : bytes' ≠ []) :
    Plain (bytes ++ bytes') := by
  refine ⟨List.isChain_append.mpr ⟨h.1, h'.1, fun a ha b _ ht => ?_⟩, ?_⟩
  · rw [ht] at ha
    exact absurd ha h.2
  · rw [List.getLast?_append_of_ne_nil _ hne]
    exact h'.2

theorem plain_nil : Plain [] := ⟨.nil, by simp⟩

theorem plain_daemonRequest (daemonSts : UInt8) : Plain (daemonRequest daemonSts) := by
  unfold daemonRequest Plain
  split <;> decide

theorem plain_write {cs : List (List UInt8)} (h : ∀ c ∈ cs, Plain c) : ∀ c ∈ write TCPHELLO cs, Plain c := by
  have hello : Plain TCPHELLO := by
    unfold Plain
    decide
  fun_induction write TCPHELLO cs with
  | case1 => exact h
  | case2 c =>
    intro d hd
    rw [List.mem_singleton.mp hd]
    exact (h c List.mem_cons_self).append hello (by decide)
  | case3 c cs _ ih =>
    intro d hd
    rcases List.mem_cons.mp hd with rfl | hd
    · exact h d List.mem_cons_self
    · exact ih (fun e he => h e (List.mem_cons_of_mem c he)) d hd

/-! ### Runs -/

structure Inv (s : System) : Prop where
  plain : ∀ c ∈ s.waiting, Plain c
  daemon : OneDhtGet s

/-- Without a `TEMP` the daemon replies to a string that asks, once. -/
theorem oneDhtGet_readStep {s : System} (h : OneDhtGet s) {data : List UInt8} (ht : occurs TEMP data = false) :
    readStep s.daemon data = (0, []) ∨ ∃ d, readStep s.daemon data = (1, [(.dhtGet, d)]) := by
  rcases h with hs | ⟨d, hs⟩ <;> rw [hs]
  · rcases readStep_cases 0 [] data with he | ⟨-, -, he⟩ | ⟨h1, -, -⟩ | ⟨-, -, htemp, -⟩
    · exact .inl he
    · exact .inr ⟨data, he⟩
    · exact absurd h1 (by decide)
    · exact absurd (ht.symm.trans htemp) Bool.false_ne_true
  · rcases readStep_cases 1 [(.dhtGet, d)] data with he | ⟨h0, -, -⟩ | ⟨-, htemp, -⟩ | ⟨h0, -, -, -⟩
    · exact .inr ⟨d, he⟩
    · exact absurd h0 (by decide)
    · exact absurd (ht.symm.trans htemp) Bool.false_ne_true
    · exact absurd h0 (by decide)

theorem inv_init : Inv system.init where
  plain _ hc := absurd hc List.not_mem_nil
  daemon := .inl rfl

theorem inv_step (s : System) (e : Event) (s' : System) (h : Inv s) (hs : system.step s e = some s') : Inv s' := by
  cases e with
  | initSockets =>
    obtain rfl := Option.some.inj hs
    exact ⟨h.plain, h.daemon⟩
  | connCbk accepted =>
    obtain rfl := Option.some.inj hs
    refine ⟨fun c hc => ?_, h.daemon⟩
    rcases List.mem_append.mp hc with hc | hc
    · exact h.plain c hc
    · rw [List.mem_singleton.mp hc]
      cases accepted with
      | true => exact plain_daemonRequest s.daemonSts
      | false => exact plain_nil
  | reconnCbk accepted =>
    obtain rfl := Option.some.inj hs
    refine ⟨?_, h.daemon⟩
    cases accepted with
    | true => exact plain_write h.plain
    | false => exact h.plain
  | recvCbk pdata =>
    obtain rfl := Option.some.inj hs
    exact h
  | serve n =>
    rcases hw : s.waiting with _ | ⟨c, cs⟩
    · simp only [system, step, hw] at hs
      cases hs
    · simp only [system, step, hw] at hs
      obtain ⟨-, hs⟩ := Option.ite_none_right_eq_some.mp hs
      obtain rfl := Option.some.inj hs
      have hc : ∀ d ∈ c :: cs, Plain d := hw ▸ h.plain
      exact ⟨fun d hd => hc d (List.mem_cons_of_mem c hd),
        oneDhtGet_readStep h.daemon (occurs_temp (hc c List.mem_cons_self).1 n)⟩

/-- **The daemon gets no report of the development client.** In a run of the two it sends
one reply at most, a `DHT_GET`, and the flag with which it waits for the report stays set
from then on. -/
theorem one_dhtGet (es : List Event) : system.Throughout OneDhtGet system.init es :=
  (system.throughout_of_inv inv_step inv_init es).mono system fun _ h => h.daemon

end DevDaemon
end Netacademia
