/-
# The two daemons

`espDataGet` of `orai_munka/daemon.py` (`SocketCbk`) and of
`development/server.py` (`ReadSocket`). Both accept a connection, receive once,
answer `DAEMON_ASK` with `DHT_GET` and `TEMP` with `OK`, and go back to
`accept`. They keep one flag, `cmdsts`: set after a `DHT_GET`, cleared after an
`OK`. `SocketCbk` writes `self.cmdsts == 1` where `ReadSocket` writes
`self.cmdsts = 1`, so its flag stays 0 and it never says `OK`.

* `same_replies_iff`: the two send the same replies exactly when at most one
  string asks, and from it on none brings a `TEMP`.
* `replies_alternate`: the replies of `ReadSocket` alternate, each of them to a
  string with its keyword, and the flag tells which one was the last.
-/
import Netacademia.Lib.Text

namespace Netacademia
namespace Daemons

open Lib

/-! ### The words of the two sides -/

def DAEMON_ASK : List UInt8 := ascii ['D', 'A', 'E', 'M', 'O', 'N', '_', 'A', 'S', 'K']

def TEMP : List UInt8 := ascii ['T', 'E', 'M', 'P']

def DHT_GET : List UInt8 := ascii ['D', 'H', 'T', '_', 'G', 'E', 'T']

def OK : List UInt8 := ascii ['O', 'K']

/-! ### The code -/

/-- What a daemon sends: `self.CMD`, or `"OK"`. -/
inductive Reply
  | dhtGet | ok
  deriving DecidableEq, Repr

def Reply.bytes : Reply → List UInt8
  | .dhtGet => DHT_GET
  | .ok => OK

/-- The loop body of `SocketCbk` after `recv`: the new `cmdsts` and the replies. -/
def socketCbk (cmdsts : ℕ) (data : List UInt8) : ℕ × List Reply :=
  -- `self.cmdsts == 1` is an expression without effect
  let asked := if occurs DAEMON_ASK data && cmdsts == 0 then [Reply.dhtGet] else []
  if occurs TEMP data && cmdsts == 1 then (0, asked ++ [.ok]) else (cmdsts, asked)

/-- The loop body of `ReadSocket` after `recv`. -/
def readSocket (cmdsts : ℕ) (data : List UInt8) : ℕ × List Reply :=
  let (cmdsts, asked) :=
    if occurs DAEMON_ASK data && cmdsts == 0 then (1, [Reply.dhtGet]) else (cmdsts, [])
  if occurs TEMP data && cmdsts == 1 then (0, asked ++ [.ok]) else (cmdsts, asked)

/-- The replies to each of the strings received, one per accepted connection. -/
def replies (body : ℕ → List UInt8 → ℕ × List Reply) : ℕ → List (List UInt8) → List (List Reply)
  | _, [] => []
  | cmdsts, d :: ds => (body cmdsts d).2 :: replies body (body cmdsts d).1 ds

/-! ### One string -/

/-- `SocketCbk` never leaves state 0. -/
theorem socketCbk_zero (d : List UInt8) :
    socketCbk 0 d = (0, if occurs DAEMON_ASK d then [.dhtGet] else []) := by
  simp [socketCbk]

theorem readSocket_zero_of_not_ask {d : List UInt8} (h : occurs DAEMON_ASK d = false) :
    readSocket 0 d = (0, []) := by
  simp [readSocket, h]

theorem readSocket_zero_of_ask {d : List UInt8} (h : occurs DAEMON_ASK d = true) :
    readSocket 0 d = if occurs TEMP d then (0, [.dhtGet, .ok]) else (1, [.dhtGet]) := by
  simp [readSocket, h]

theorem readSocket_one (d : List UInt8) :
    readSocket 1 d = if occurs TEMP d then (0, [.ok]) else (1, []) := by
  simp [readSocket]

/-! ### The sequences -/

/-- A string without a keyword for either state. -/
def Quiet (d : List UInt8) : Prop := occurs DAEMON_ASK d = false ∧ occurs TEMP d = false

/-- At most one string asks; it and the ones after it bring no `TEMP`. -/
def OneAsk : List (List UInt8) → Prop
  | [] => True
  | d :: ds =>
    if occurs DAEMON_ASK d then occurs TEMP d = false ∧ ∀ x ∈ ds, Quiet x else OneAsk ds

/-- Once `ReadSocket` has sent `DHT_GET`, every string with a keyword tells the
two apart. -/
theorem same_replies_asked (ds : List (List UInt8)) :
    replies socketCbk 0 ds = replies readSocket 1 ds ↔ ∀ x ∈ ds, Quiet x := by
  induction ds with
  | nil => simp [replies]
  | cons d ds ih =>
    rw [List.forall_mem_cons, ← ih]
    simp only [replies, socketCbk_zero, readSocket_one, Quiet]
    by_cases ha : occurs DAEMON_ASK d <;> by_cases ht : occurs TEMP d <;> simp [ha, ht]

/-- **Where the two daemons agree.** They send the same replies to a sequence of
strings if and only if at most one of them asks and none from it on has `TEMP`. -/
theorem same_replies_iff (ds : List (List UInt8)) :
    replies socketCbk 0 ds = replies readSocket 0 ds ↔ OneAsk ds := by
  induction ds with
  | nil => simp [replies, OneAsk]
  | cons d ds ih =>
    simp only [replies, socketCbk_zero, OneAsk]
    by_cases ha : occurs DAEMON_ASK d
    · rw [readSocket_zero_of_ask ha]
      by_cases ht : occurs TEMP d
      · simp [ha, ht]
      · simpa [ha, ht] using same_replies_asked ds
    · rw [readSocket_zero_of_not_ask (by simpa using ha)]
      simpa [ha] using ih

/-- The exchange of one measurement: `ReadSocket` answers the report, `SocketCbk` does not. -/
theorem report_not_answered :
    ¬ ∀ ds, replies socketCbk 0 ds = replies readSocket 0 ds := by
  intro h
  exact absurd (h [DAEMON_ASK, TEMP]) (by decide)

/-! ### The discipline of `ReadSocket` -/

/-- The replies sent so far, each with the string it was sent for. -/
abbrev Sent := List (Reply × List UInt8)

/-- The loop body of `ReadSocket` after `recv`, with the replies of the run. -/
def readStep (s : ℕ × Sent) (data : List UInt8) : ℕ × Sent :=
  let (cmdsts, rs) := readSocket s.1 data
  (cmdsts, s.2 ++ rs.map fun r => (r, data))

/-- `ReadSocket` on the strings of a run. -/
def readRun (ds : List (List UInt8)) : ℕ × Sent := ds.foldl readStep (0, [])

/-- The keyword that calls for a reply. -/
def keyword : Reply → List UInt8
  | .dhtGet => DAEMON_ASK
  | .ok => TEMP

/-- `DHT_GET`, `OK`, `DHT_GET`, ... -/
def alternating (i : ℕ) : Reply := if i % 2 = 0 then .dhtGet else .ok

/-- What the loop keeps: the replies alternate and have their keywords, and the
flag is the parity of their number. -/
structure Disciplined (s : ℕ × Sent) : Prop where
  flag : s.1 = s.2.length % 2
  alternate : ∀ i (h : i < s.2.length), s.2[i].1 = alternating i
  keyword : ∀ p ∈ s.2, occurs (keyword p.1) p.2 = true

theorem disciplined_init : Disciplined (0, []) where
  flag := rfl
  alternate i h := absurd h (Nat.not_lt_zero i)
  keyword p h := by cases h

/-- A reply that is due, to a string with its keyword. -/
theorem Disciplined.send {n : ℕ} {sent : Sent} (h : Disciplined (n, sent)) {r : Reply} {data : List UInt8}
    (hr : r = alternating sent.length) (hk : occurs (Daemons.keyword r) data = true) {m : ℕ} (hm : m = (n + 1) % 2) :
    Disciplined (m, sent ++ [(r, data)]) where
  flag := by
    have hn : n = sent.length % 2 := h.flag
    simp only [List.length_append, List.length_singleton]
    omega
  alternate i hi := by
    simp only [List.length_append, List.length_singleton] at hi
    by_cases hlt : i < sent.length
    · simp only [List.getElem_append_left hlt]
      exact h.alternate i hlt
    · obtain rfl : i = sent.length := by omega
      simpa using hr
  keyword p hp := by
    rcases List.mem_append.mp hp with hp | hp
    · exact h.keyword p hp
    · obtain rfl := List.mem_singleton.mp hp
      exact hk

theorem dhtGet_due {k : ℕ} (h : k % 2 = 0) : .dhtGet = alternating k := (if_pos h).symm

theorem ok_due {k : ℕ} (h : k % 2 = 1) : .ok = alternating k := (if_neg (by omega)).symm

/-- What a string does: nothing, or one reply that is due, or both. -/
theorem readStep_cases (n : ℕ) (sent : Sent) (data : List UInt8) :
    readStep (n, sent) data = (n, sent) ∨
    (n = 0 ∧ occurs DAEMON_ASK data = true ∧ readStep (n, sent) data = (1, sent ++ [(.dhtGet, data)])) ∨
    (n = 1 ∧ occurs TEMP data = true ∧ readStep (n, sent) data = (0, sent ++ [(.ok, data)])) ∨
    (n = 0 ∧ occurs DAEMON_ASK data = true ∧ occurs TEMP data = true ∧
      readStep (n, sent) data = (0, (sent ++ [(.dhtGet, data)]) ++ [(.ok, data)])) := by
  by_cases ha : occurs DAEMON_ASK data = true ∧ n = 0
  · obtain ⟨ha, rfl⟩ := ha
    rw [readStep, readSocket_zero_of_ask ha]
    by_cases ht : occurs TEMP data = true
    · exact Or.inr (Or.inr (Or.inr ⟨rfl, ha, ht, by simp [ht]⟩))
    · exact Or.inr (Or.inl ⟨rfl, ha, by simp [ht]⟩)
  · have hb : (occurs DAEMON_ASK data && n == 0) = false := by simpa using ha
    by_cases ht : occurs TEMP data = true ∧ n = 1
    · obtain ⟨ht, rfl⟩ := ht
      refine Or.inr (Or.inr (Or.inl ⟨rfl, ht, ?_⟩))
      rw [readStep, readSocket_one, if_pos ht]
      rfl
    · have hc : (occurs TEMP data && n == 1) = false := by simpa using ht
      left
      simp [readStep, readSocket, hb, hc]

theorem disciplined_step {s : ℕ × Sent} (h : Disciplined s) (data : List UInt8) : Disciplined (readStep s data) := by
  obtain ⟨n, sent⟩ := s
  have hn : n = sent.length % 2 := h.flag
  rcases readStep_cases n sent data with he | ⟨h0, ha, he⟩ | ⟨h1, ht, he⟩ | ⟨h0, ha, ht, he⟩
  · rw [he]
    exact h
  · rw [he]
    exact h.send (dhtGet_due (by omega)) ha (by omega)
  · rw [he]
    exact h.send (ok_due (by omega)) ht (by omega)
  · have hget : Disciplined (1, sent ++ [(.dhtGet, data)]) := h.send (dhtGet_due (by omega)) ha (by omega)
    have hodd : (sent ++ [(Reply.dhtGet, data)]).length % 2 = 1 := by
      rw [List.length_append, List.length_singleton]
      omega
    rw [he]
    exact hget.send (ok_due hodd) ht (by omega)

theorem disciplined_run (ds : List (List UInt8)) : Disciplined (readRun ds) := by
  induction ds using List.reverseRecOn with
  | nil => exact disciplined_init
  | append_singleton ds d ih =>
    rw [readRun, List.foldl_append]
    exact disciplined_step ih d

/-- **Command discipline.** Over any strings received, the replies alternate from
`DHT_GET` on, each is sent for a string with its keyword, and `cmdsts` is 1
exactly when the last one was `DHT_GET`. -/
theorem replies_alternate (ds : List (List UInt8)) :
    (∀ i (h : i < (readRun ds).2.length), (readRun ds).2[i].1 = if i % 2 = 0 then .dhtGet else .ok) ∧
      (∀ p ∈ (readRun ds).2, (p.1 = .dhtGet → occurs DAEMON_ASK p.2 = true) ∧ (p.1 = .ok → occurs TEMP p.2 = true)) ∧
      ((readRun ds).1 = 1 ↔ (readRun ds).2.getLast?.map Prod.fst = some .dhtGet) := by
  have h := disciplined_run ds
  refine ⟨h.alternate, fun p hp => ⟨fun hr => ?_, fun hr => ?_⟩, ?_⟩
  · have := h.keyword p hp
    rwa [hr] at this
  · have := h.keyword p hp
    rwa [hr] at this
  · rw [h.flag, List.getLast?_eq_getElem?]
    by_cases h0 : (readRun ds).2.length = 0
    · simp [h0]
    · have hlt : (readRun ds).2.length - 1 < (readRun ds).2.length := by omega
      rw [List.getElem?_eq_getElem hlt, Option.map_some, h.alternate _ hlt, alternating]
      split
      · exact iff_of_true (by omega) rfl
      · exact iff_of_false (by omega) (by decide)

end Daemons
end Netacademia
