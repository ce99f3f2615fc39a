/-
# The firmware's client of the daemon

`orai_munka/user/daemon-handle.c`. The client keeps one counter, `daemonSts`,
a `uint8_t`: 0 it may ask, 1 a measurement was requested, 2 the report went
out. A segment with `DHT_GET` counts it up and starts a measurement, one with
`OK` clears it; `daemonRequest` asks in state 0 and reports in state 1. Three
callers run `daemonRequest`: mainTask with a reading, and the connect and
reconnect callbacks with NULL.

* `reports_solicited`: a report is sent only for a `DHT_GET` of its own, in
  any run, wrap of the counter included.
* `request_answered_iff`: no request is lost exactly as long as each `DHT_GET`
  comes in state 0 and, while it waits for its reading, no `OK`, connect or
  reconnect callback comes and the send is accepted.
-/
import Netacademia.Lib.Machine
import Netacademia.Lib.Text
import Netacademia.Daemons

namespace Netacademia
namespace DaemonHandle

open Lib
open Daemons (DAEMON_ASK DHT_GET OK)

/-! ### The code -/

/-- The branches of `daemonHandleAnswer`. -/
inductive Answer
  | dhtGet | ok | unhandled
  deriving DecidableEq, Repr

/-- The memory from `buf` on after `os_memcpy(buf, pdata, len)`; `stack` is what
was there before. The copy is not bounded by the 64 bytes of `buf`. -/
def bufAfter (pdata stack : List UInt8) : List UInt8 := pdata ++ stack.drop pdata.length

/-- `os_strstr(buf, key) != NULL` -/
def strstr (buf key : List UInt8) : Bool := occurs key (cstr buf)

/-- The branch `daemonHandleAnswer` takes. -/
def answer (pdata stack : List UInt8) : Answer :=
  if strstr (bufAfter pdata stack) DHT_GET then .dhtGet
  else if strstr (bufAfter pdata stack) OK then .ok
  else .unhandled

/-- What the branch does to `daemonSts`; the `DHT_GET` branch also calls `dhtStart`. -/
def Answer.sts : Answer → UInt8 → UInt8
  | .dhtGet, sts => sts + 1
  | .ok, _ => 0
  | .unhandled, sts => sts

/-- A call of `espconn_send`: `"DAEMON_ASK", 10`, or `data, sizeof(data)` for
the pointer `daemonRequest` was given. -/
inductive Send
  | ask
  | report (data : Option (List Char))
  deriving DecidableEq, Repr

/-- The bytes of a call: `sizeof(data)` is the size of a pointer, 4. -/
def Send.bytes : Send → List UInt8
  | .ask => DAEMON_ASK
  | .report none => []
  | .report (some text) => (ascii text).take 4

/-- `daemonRequest(data)`: the new `daemonSts` and the sends. Its result does
not depend on what `espconn_send` returns. -/
def daemonRequest (data : Option (List Char)) (sts : UInt8) : UInt8 × List Send :=
  let asked := if sts = 0 then [Send.ask] else []
  if sts = 1 then (sts + 1, asked ++ [.report data]) else (sts, asked)

/-- What reaches the client once `daemonConInit` is done. `status` is what
`espconn_send` returns, should it be called. -/
inductive Event
  | segment (pdata stack : List UInt8)
  | connCbk (status : UInt8)
  | reconnCbk (status : UInt8)
  | compl (printbuf : List Char) (status : UInt8)

/-- `daemonConRecvCbk`, `daemonConnCbk`, `daemonReconnCbk`, and the `COMPL`
branch of mainTask. -/
def handle (sts : UInt8) : Event → UInt8
  | .segment pdata stack => (answer pdata stack).sts sts
  | .connCbk _ => (daemonRequest none sts).1
  | .reconnCbk _ => (daemonRequest none sts).1
  | .compl printbuf _ => (daemonRequest (some printbuf) sts).1

/-- The client from the end of `daemonConInit` on. -/
def client : Machine UInt8 Event where
  init := 0
  step sts e := some (handle sts e)

/-! ### The branches -/

theorem daemonRequest_one (data : Option (List Char)) : daemonRequest data 1 = (2, [.report data]) := rfl

theorem daemonRequest_sts_of_ne (data : Option (List Char)) {sts : UInt8} (h : sts ≠ 1) :
    (daemonRequest data sts).1 = sts := by
  simp [daemonRequest, h]

/-- The report branch is the branch of state 1. -/
theorem report_mem_iff (data data' : Option (List Char)) (sts : UInt8) :
    .report data' ∈ (daemonRequest data sts).2 ↔ sts = 1 ∧ data' = data := by
  unfold daemonRequest
  by_cases h1 : sts = 1
  · simp [h1]
  · by_cases h0 : sts = 0 <;> simp [h1, h0]

/-- A segment that starts with a NUL-free text containing `DHT_GET` is a
request, whatever the stack holds. -/
theorem answer_of_dhtGet {pdata : List UInt8} (stack : List UInt8) (h0 : 0 ∉ pdata)
    (h : DHT_GET <:+: pdata) : answer pdata stack = .dhtGet := by
  have : strstr (bufAfter pdata stack) DHT_GET = true := by
    rw [strstr, occurs_iff, bufAfter, cstr_append h0]
    exact h.trans (List.infix_append' [] pdata _)
  rw [answer, if_pos this]

/-! ### A report needs a request -/

/-- What a run is judged by: the requests received and the reports sent. -/
inductive Mark
  | get | report
  deriving DecidableEq, Repr

/-- The marks of one event. -/
def marks (sts : UInt8) : Event → List Mark
  | .segment pdata stack => if answer pdata stack = .dhtGet then [.get] else []
  | _ => if sts = 1 then [.report] else []

/-- The client with the marks of its run. -/
def markedClient : Machine (UInt8 × List Mark) Event :=
  client.history [] fun ms sts e => ms ++ marks sts e

/-- After the last report there is a request. -/
def Fresh (ms : List Mark) : Prop := ∀ a b, ms = a ++ .report :: b → .get ∈ b

/-- Between any two reports there is a request. -/
def Separated (ms : List Mark) : Prop :=
  ∀ a b c, ms = a ++ .report :: (b ++ .report :: c) → .get ∈ b

/-- How a list with one more element splits at an element: at the new one, or before it. -/
theorem snoc_split {α : Type*} {ms a b : List α} {x y : α} (h : ms ++ [x] = a ++ y :: b) :
    (b = [] ∧ y = x ∧ ms = a) ∨ ∃ b', b = b' ++ [x] ∧ ms = a ++ y :: b' := by
  rcases List.eq_nil_or_concat b with rfl | ⟨b', z, rfl⟩
  · obtain ⟨h1, h2⟩ := List.append_inj' h rfl
    exact Or.inl ⟨rfl, (List.singleton_inj.mp h2).symm, h1⟩
  · have h' : ms ++ [x] = (a ++ y :: b') ++ [z] := by simpa using h
    obtain ⟨h1, h2⟩ := List.append_inj' h' rfl
    rw [List.singleton_inj.mp h2]
    exact Or.inr ⟨b', List.concat_eq_append, h1⟩

theorem fresh_get (ms : List Mark) : Fresh (ms ++ [.get]) := by
  intro a b h
  rcases snoc_split h with ⟨-, hx, -⟩ | ⟨b', rfl, -⟩
  · cases hx
  · simp

/-- A mark after which every report is fresh keeps the reports apart. -/
theorem separated_snoc {ms : List Mark} {x : Mark} (h : Separated ms) (hx : x = .report → Fresh ms) :
    Separated (ms ++ [x]) := by
  intro a b c he
  rw [← List.cons_append, ← List.append_assoc] at he
  rcases snoc_split he with ⟨-, hr, hms⟩ | ⟨c', -, hms⟩
  · exact hx hr.symm a b hms
  · exact h a b c' (by simpa using hms)

/-- What ties the counter to the marks: in state 1 a request is not yet spent. -/
structure Solicited (s : UInt8 × List Mark) : Prop where
  count : s.2.count .report + (if s.1 = 1 then 1 else 0) ≤ s.2.count .get
  fresh : s.1 = 1 → Fresh s.2
  separated : Separated s.2

theorem solicited_init : Solicited markedClient.init where
  count := by decide
  fresh h := by cases h
  separated a b c h := by simp [markedClient, client, Machine.history] at h

/-- A call of `daemonRequest` spends the request it reports. -/
theorem solicited_request {sts : UInt8} {ms : List Mark} (h : Solicited (sts, ms))
    (data : Option (List Char)) :
    Solicited ((daemonRequest data sts).1, ms ++ if sts = 1 then [.report] else []) := by
  by_cases h1 : sts = 1
  · subst h1
    have hc := h.count
    simp only [if_true] at hc ⊢
    rw [daemonRequest_one]
    refine ⟨?_, nofun, separated_snoc h.separated fun _ => h.fresh rfl⟩
    simpa using hc
  · rw [daemonRequest_sts_of_ne data h1, if_neg h1, List.append_nil]
    exact h

/-- A segment adds a request, or moves the counter away from 1, or changes nothing. -/
theorem solicited_segment {sts : UInt8} {ms : List Mark} (h : Solicited (sts, ms))
    (pdata stack : List UInt8) :
    Solicited ((answer pdata stack).sts sts, ms ++ marks sts (.segment pdata stack)) := by
  have hc := h.count
  simp only at hc
  cases ha : answer pdata stack with
  | dhtGet =>
    simp only [marks, ha, if_true, Answer.sts]
    refine ⟨?_, fun _ => fresh_get ms, separated_snoc h.separated nofun⟩
    have h1 : (if sts + 1 = 1 then 1 else 0) ≤ 1 := by split <;> decide
    have h2 : (ms ++ [Mark.get]).count .report = ms.count .report := by simp
    have h3 : (ms ++ [Mark.get]).count .get = ms.count .get + 1 := by simp
    simp only [h2, h3]
    omega
  | ok =>
    simp only [marks, ha, reduceCtorEq, if_false, List.append_nil, Answer.sts]
    refine ⟨?_, nofun, h.separated⟩
    simp only [show ¬ (0 : UInt8) = 1 by decide, if_false]
    omega
  | unhandled =>
    simp only [marks, ha, reduceCtorEq, if_false, List.append_nil, Answer.sts]
    exact h

theorem solicited_step (s : UInt8 × List Mark) (e : Event) (s' : UInt8 × List Mark) (h : Solicited s)
    (hs : markedClient.step s e = some s') : Solicited s' := by
  obtain ⟨hs, hg⟩ := Machine.history_step.mp hs
  obtain ⟨sts, ms⟩ := s
  obtain ⟨sts', ms'⟩ := s'
  simp only [client, Option.some.injEq] at hs hg
  subst hs hg
  cases e with
  | segment pdata stack => exact solicited_segment h pdata stack
  | connCbk _ => exact solicited_request h none
  | reconnCbk _ => exact solicited_request h none
  | compl printbuf _ => exact solicited_request h (some printbuf)

/-- **No unsolicited and no duplicated report.** In every state of every run the
reports are no more than the requests, and between two reports there is a
request. -/
theorem reports_solicited (es : List Event) :
    markedClient.Throughout (fun s => s.2.count .report ≤ s.2.count .get ∧
      ∀ a b c, s.2 = a ++ .report :: (b ++ .report :: c) → .get ∈ b) markedClient.init es :=
  (markedClient.throughout_of_inv solicited_step solicited_init es).mono _
    fun _ h => ⟨le_trans (Nat.le_add_right _ _) h.count, h.separated⟩

/-! ### A request gets its report -/

/-- Whether a `DHT_GET` was received since the last reading that `espconn_send`
accepted as a report. -/
def awaiting (aw : Bool) (sts : UInt8) : Event → Bool
  | .segment pdata stack => aw || answer pdata stack == .dhtGet
  | .compl _ status => aw && !(sts == 1 && status == 0)
  | _ => aw

/-- The client with its open request. -/
def awaitingClient : Machine (UInt8 × Bool) Event := client.history false awaiting

/-- While a request is open, the next `COMPL` dispatch reports its reading. -/
def Answered (s : UInt8 × Bool) : Prop :=
  s.2 = true → ∀ printbuf, .report (some printbuf) ∈ (daemonRequest (some printbuf) s.1).2

/-- The steps that keep a request: a `DHT_GET` comes in state 0; in state 1 no
`OK` and no connect or reconnect callback comes, and the send is accepted. -/
def KeepsRequest (s : UInt8 × Bool) : Event → Prop
  | .segment pdata stack =>
    (answer pdata stack = .dhtGet → s.1 = 0) ∧ (answer pdata stack = .ok → s.1 ≠ 1)
  | .connCbk _ => s.1 ≠ 1
  | .reconnCbk _ => s.1 ≠ 1
  | .compl _ status => s.1 = 1 → status = 0

/-- State 1 is the state of an open request. -/
def OpenOne (s : UInt8 × Bool) : Prop :=
  (s.2 = true ∧ s.1 = 1) ∨ (s.2 = false ∧ (s.1 = 0 ∨ s.1 = 2))

theorem answered_iff (s : UInt8 × Bool) : Answered s ↔ (s.2 = true → s.1 = 1) := by
  simp [Answered, report_mem_iff]

instance : DecidablePred Answered := fun s => decidable_of_iff _ (answered_iff s).symm

theorem openOne_answered (s : UInt8 × Bool) (h : OpenOne s) : Answered s := by
  rw [answered_iff]
  rcases h with ⟨-, h⟩ | ⟨h, -⟩
  · exact fun _ => h
  · simp [h]

theorem awaiting_step {s s' : UInt8 × Bool} {e : Event} :
    awaitingClient.step s e = some s' ↔ s' = (handle s.1 e, awaiting s.2 s.1 e) := by
  rw [awaitingClient, Machine.history_step, Prod.ext_iff]
  simp only [client, Option.some.injEq]
  exact and_congr_left fun _ => eq_comm

theorem openOne_step : awaitingClient.Preserves OpenOne KeepsRequest := by
  rintro ⟨sts, aw⟩ e s' h hk hs
  rw [awaiting_step.mp hs]
  cases e with
  | segment pdata stack =>
    obtain ⟨hg, ho⟩ := hk
    cases ha : answer pdata stack with
    | dhtGet =>
      obtain rfl : sts = 0 := hg ha
      left
      simp [handle, awaiting, ha, Answer.sts]
    | ok =>
      have h1 : sts ≠ 1 := ho ha
      rcases h with ⟨-, h⟩ | ⟨rfl, -⟩
      · exact absurd h h1
      · right
        simp [handle, awaiting, ha, Answer.sts]
    | unhandled => simpa [OpenOne, handle, awaiting, ha, Answer.sts] using h
  | connCbk _ =>
    simpa [OpenOne, handle, awaiting, daemonRequest_sts_of_ne none (show sts ≠ 1 from hk)] using h
  | reconnCbk _ =>
    simpa [OpenOne, handle, awaiting, daemonRequest_sts_of_ne none (show sts ≠ 1 from hk)] using h
  | compl printbuf status =>
    rcases h with ⟨-, rfl⟩ | ⟨rfl, h⟩
    · obtain rfl : status = 0 := hk rfl
      right
      simp [handle, awaiting, daemonRequest_one]
    · right
      have h1 : sts ≠ 1 := by rcases h with rfl | rfl <;> decide
      simpa [handle, awaiting, daemonRequest_sts_of_ne (some printbuf) h1] using h

theorem openOne_one {aw : Bool} (h : OpenOne (1, aw)) : aw = true := by
  rcases h with ⟨h, -⟩ | ⟨-, h | h⟩
  · exact h
  · cases h
  · cases h

/-- A step that does not keep the request leaves one that is skipped. -/
theorem not_answered_step (s : UInt8 × Bool) (e : Event) (s' : UInt8 × Bool) (h : OpenOne s)
    (hk : ¬ KeepsRequest s e) (hs : awaitingClient.step s e = some s') : ¬ Answered s' := by
  rw [awaiting_step.mp hs, answered_iff]
  obtain ⟨sts, aw⟩ := s
  -- each event that breaks `KeepsRequest` ends with an open request outside of state 1
  cases e with
  | segment pdata stack =>
    cases ha : answer pdata stack with
    | dhtGet =>
      have h0 : sts ≠ 0 := by simpa [KeepsRequest, ha] using hk
      simpa [handle, awaiting, ha, Answer.sts] using h0
    | ok =>
      obtain rfl : sts = 1 := by simpa [KeepsRequest, ha] using hk
      simp [handle, awaiting, ha, Answer.sts, openOne_one h]
    | unhandled => simp [KeepsRequest, ha] at hk
  | connCbk _ =>
    obtain rfl : sts = 1 := not_not.mp hk
    simp [handle, awaiting, daemonRequest_one, openOne_one h]
  | reconnCbk _ =>
    obtain rfl : sts = 1 := not_not.mp hk
    simp [handle, awaiting, daemonRequest_one, openOne_one h]
  | compl printbuf status =>
    obtain ⟨rfl, hst⟩ : sts = 1 ∧ status ≠ 0 := Classical.not_imp.mp hk
    simp [handle, awaiting, daemonRequest_one, hst, openOne_one h]

/-- **When no request is lost.** At every point of a run the next `COMPL`
dispatch reports an open request if and only if every step of the run keeps
the request. -/
theorem request_answered_iff (es : List Event) :
    awaitingClient.Throughout Answered awaitingClient.init es ↔
      awaitingClient.Along KeepsRequest awaitingClient.init es :=
  awaitingClient.throughout_iff_along openOne_answered openOne_step not_answered_step
    (Or.inr ⟨rfl, Or.inl rfl⟩) es

/-- A second `DHT_GET` before the reading: the counter is 2, and the next `COMPL`
dispatch sends nothing. -/
theorem second_request_lost :
    ¬ awaitingClient.Throughout Answered awaitingClient.init
      [.segment DHT_GET [], .segment DHT_GET []] := by decide

end DaemonHandle
end Netacademia
