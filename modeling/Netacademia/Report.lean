/-
# What a report carries

mainTask formats the temperature into `printbuf` and hands the pointer to
`daemonRequest`, which sends `sizeof(data)` bytes of it: the size of a pointer,
4 on this target. The text starts with `TEMP:`, so the four bytes are the
keyword the daemon looks for, and the number stays behind.

* `formatted_along`: in every run, when mainTask calls `daemonRequest`,
  `printbuf` holds the text of a temperature.
* `reports_differ_iff`: two reports are the same bytes, whatever their texts.
-/
import Netacademia.Tasks
import Netacademia.DhtCapture

namespace Netacademia
namespace Report

open Lib Dht Firmware Tasks

/-- `"TEMP:%d,%d"` of a temperature. -/
def tempText (x : ℚ) : List Char := ['T', 'E', 'M', 'P', ':'] ++ sprintfReading x

/-- mainTask calls `daemonRequest(&printbuf)` next. -/
def Requests (s : Fw) : Prop := s.cont.head? = some (.daemonRequest true)

instance : DecidablePred Requests := fun _ => inferInstanceAs (Decidable (_ = some _))

/-- The byte strings this call passes to `espconn_send`. -/
def handed (s : Fw) : List (List UInt8) := (sends s (.daemonRequest true)).map DaemonHandle.Send.bytes

/-! ### printbuf at the call -/

/-- A call of `daemonRequest` with `printbuf` that comes next after a statement
comes after the one that formats the temperature. -/
def Fed : List Stmt → Bool
  | c :: d :: _ => d != .daemonRequest true || c == .sprintfTemp
  | _ => true

theorem fed_of_cont {cont : List Stmt} (h : Cont cont) : Fed cont = true :=
  Cont.all (P := fun cont => Fed cont = true) (fun _ _ => rfl) (by decide) h

/-- What a statement puts in front does not begin with the call. -/
theorem exec_head (now : UInt32) (s : Fw) (c : Stmt) :
    (exec now s c).2.head? ≠ some (.daemonRequest true) := by
  cases c with
  | ifTimeout => simp only [exec]; split <;> decide
  | switchState => simp only [exec]; cases s.board.dhtHandle.state <;> decide
  | ifAnswer pdata stack =>
    simp only [exec]
    cases DaemonHandle.answer pdata stack <;> decide
  | _ => intro h; cases h

theorem task_head {b b' : Board} {e : Event} {task : List Stmt} (h : taskOf b e = some (b', task)) :
    task.head? ≠ some (.daemonRequest true) := by
  rcases taskOf_cases h with ⟨-, -, -, rfl⟩ | ⟨p, q, -, -, -, rfl⟩ | ⟨-, rfl | rfl | ⟨_, _, rfl⟩⟩
  · decide
  · cases p <;> decide
  · decide
  · decide
  · intro h
    cases h

/-- The call comes next only after the temperature was formatted. -/
theorem sprintfTemp_of_head {now : UInt32} {s : Fw} {c : Stmt} {rest : List Stmt} (h : Cont (c :: rest))
    (hh : ((exec now s c).2 ++ rest).head? = some (.daemonRequest true)) : c = .sprintfTemp := by
  rw [List.head?_append] at hh
  cases hf : (exec now s c).2.head? with
  | some d => exact absurd (by simpa [hf] using hh) (exec_head now s c)
  | none =>
    have hfed := fed_of_cont h
    cases rest with
    | nil => simp [hf] at hh
    | cons d rest =>
      obtain rfl : d = .daemonRequest true := by simpa [hf] using hh
      simpa [Fed] using hfed

structure Inv (s : Fw) : Prop where
  cont : Cont s.cont
  formatted : Requests s → ∃ x, s.printbuf = tempText x

theorem inv_init : Inv firmware.init where
  cont := cont_init
  formatted h := absurd h (by decide)

theorem inv_step (s : Fw) (e : Event) (s' : Fw) (h : Inv s) (hs : firmware.step s e = some s') : Inv s' := by
  refine ⟨cont_step h.cont hs, ?_⟩
  rcases step_cases hs with ⟨gs, n, n', -, -, rfl⟩ | ⟨b, task, ht, -, rfl⟩ | ⟨now, c, rest, -, hc, rfl⟩
  · exact h.formatted
  · exact fun hr => absurd hr (task_head ht)
  · intro hr
    obtain rfl := sprintfTemp_of_head (hc ▸ h.cont) hr
    exact ⟨s.board.dhtHandle.dhtTemp, rfl⟩

/-- **printbuf holds a temperature** whenever mainTask calls `daemonRequest`. -/
theorem formatted_along (es : List Event) :
    firmware.Throughout (fun s => Requests s → ∃ x, s.printbuf = tempText x) firmware.init es :=
  (firmware.throughout_of_inv inv_step inv_init es).mono _ fun _ h => h.formatted

/-! ### The bytes of a report -/

/-- In state 1 the call hands over the first four bytes of `printbuf`, once. -/
theorem handed_one {s : Fw} (h : s.daemonSts = 1) : handed s = [(ascii s.printbuf).take 4] := by
  simp only [handed, sends, h, if_true, DaemonHandle.daemonRequest_one, List.map_cons, List.map_nil,
    DaemonHandle.Send.bytes]

/-- They are the keyword. -/
theorem handed_temp {s : Fw} (h : s.daemonSts = 1) (hp : ∃ x, s.printbuf = tempText x) :
    handed s = [ascii ['T', 'E', 'M', 'P']] := by
  obtain ⟨x, hx⟩ := hp
  rw [handed_one h, hx]
  rfl

/-- **When two reports differ.** For two measurements of any two runs, reported in
state 1: their texts can be told apart by the bytes sent only where they are
equal, and neither of the complete texts is sent. -/
theorem reports_differ_iff {es es' : List Event} {s s' : Fw} (hrun : firmware.run firmware.init es = some s)
    (hrun' : firmware.run firmware.init es' = some s') (hr : Requests s) (hr' : Requests s')
    (h1 : s.daemonSts = 1) (h1' : s'.daemonSts = 1) :
    ((s.printbuf ≠ s'.printbuf → handed s ≠ handed s') ↔ s.printbuf = s'.printbuf) ∧
      handed s ≠ [ascii s.printbuf] := by
  have htext : ∃ x, s.printbuf = tempText x :=
    firmware.throughout_iff.mp (formatted_along es) es [] s (List.append_nil es).symm hrun hr
  have htext' : ∃ x, s'.printbuf = tempText x :=
    firmware.throughout_iff.mp (formatted_along es') es' [] s' (List.append_nil es').symm hrun' hr'
  have hsame : handed s = handed s' := (handed_temp h1 htext).trans (handed_temp h1' htext').symm
  refine ⟨⟨fun h => ?_, fun he hne => absurd he hne⟩, fun h => ?_⟩
  · by_contra hne
    exact h hne hsame
  · obtain ⟨x, hx⟩ := htext
    have hlen : ((handed s).map List.length) = [4] := by rw [handed_temp h1 ⟨x, hx⟩]; rfl
    rw [h, hx] at hlen
    simp [ascii, tempText] at hlen

/-- Boot, a `DHT_GET`, the capture of a frame, and mainTask up to the call. -/
def measurement (frame : Vector UInt8 5) : List Event :=
  execs 0 9 ++ .recvCbk Daemons.DHT_GET [] :: execs 0 11 ++ .tick :: execs 0 14 ++
    (List.range 42).map (fun k => .gpio dhtPinBit (DhtCapture.clock 0 (DhtCapture.intervals frame) (k + 1))
      (DhtCapture.clock 0 (DhtCapture.intervals frame) (k + 1))) ++ .dispatch :: execs 0 3

/-- Whether a run ends at a call of `daemonRequest` in state 1 with this text. -/
def endsWith (text : List Char) (s : Option Fw) : Bool :=
  s.any fun s => decide (Requests s) && s.daemonSts == 1 && s.printbuf == text

theorem endsWith_iff {text : List Char} {s : Option Fw} (h : endsWith text s = true) :
    ∃ t, s = some t ∧ Requests t ∧ t.daemonSts = 1 ∧ t.printbuf = text := by
  cases s with
  | none => cases h
  | some t =>
    simp only [endsWith, Option.any_some, Bool.and_eq_true, decide_eq_true_eq, beq_iff_eq] at h
    exact ⟨t, rfl, h.1.1, h.1.2, h.2⟩

theorem warm_run : endsWith ['T', 'E', 'M', 'P', ':', '2', '3', ',', '5', '0']
    (firmware.run firmware.init (measurement #v[0x01, 0x90, 0x00, 0xeb, 0x7c])) = true := by decide +kernel

theorem cold_run : endsWith ['T', 'E', 'M', 'P', ':', '-', '1', '0', ',', '-', '1', '0']
    (firmware.run firmware.init (measurement #v[0x02, 0x8c, 0x80, 0x65, 0x73])) = true := by decide +kernel

/-- 23.5 °C and -10.1 °C. -/
theorem reports_differ_iff_warm_cold : ∃ s s' : Fw, s.printbuf ≠ s'.printbuf ∧ ¬ handed s ≠ handed s' ∧
    handed s ≠ [ascii s.printbuf] := by
  obtain ⟨s, hs, hr, h1, hp⟩ := endsWith_iff warm_run
  obtain ⟨s', hs', hr', h1', hp'⟩ := endsWith_iff cold_run
  have hne : s.printbuf ≠ s'.printbuf := by
    rw [hp, hp']
    decide
  obtain ⟨h, hfull⟩ := reports_differ_iff hs hs' hr hr' h1 h1'
  exact ⟨s, s', hne, fun hd => hne (h.mp fun _ => hd), hfull⟩

/-- The two readings cannot be told apart by what is sent. -/
theorem reports_same : ¬ ∀ (es es' : List Event) (s s' : Fw), firmware.run firmware.init es = some s →
    firmware.run firmware.init es' = some s' → Requests s → Requests s' → s.daemonSts = 1 → s'.daemonSts = 1 →
    s.printbuf ≠ s'.printbuf → handed s ≠ handed s' := by
  intro h
  obtain ⟨s, hs, hr, h1, hp⟩ := endsWith_iff warm_run
  obtain ⟨s', hs', hr', h1', hp'⟩ := endsWith_iff cold_run
  refine h _ _ s s' hs hs' hr hr' h1 h1' ?_ ?_
  · rw [hp, hp']
    decide
  · rw [handed_one h1, handed_one h1', hp, hp']
    rfl

end Report
end Netacademia
