/-
# What the client reads of any server

`python-beginner/3.ora`: the calls of `socketClient.send` on what `listenToClient` writes for
any requests, ASCII or not, with `json.loads` itself. Data that does not decode is answered
with the text of the last answer, so a call returns the answer to the last request up to
its own that does.

* `calls_answered`: however the stream is cut, the k-th call returns the answer to the last
  of the first k requests that is ASCII, and the calls read what was written for as many
  requests.
-/
import Netacademia.Lib.JsonRead
import Netacademia.Listen

namespace Netacademia
namespace Answers

open Lib Wire Listen

/-- The requests whose answers are sent, after one that was answered. -/
def answeredFrom : Request → List Request → List Request
  | _, [] => []
  | last, r :: rs =>
    let last := if Decodes r then r else last
    last :: answeredFrom last rs

/-- The last request that decodes. -/
def lastText (rs : List Request) : Option Request := rs.reverse.find? fun r => decide (Decodes r)

theorem length_answeredFrom (last : Request) (rs : List Request) : (answeredFrom last rs).length = rs.length := by
  induction rs generalizing last with
  | nil => rfl
  | cons r rs ih => rw [answeredFrom, List.length_cons, List.length_cons, ih]

theorem answeredFrom_take (last : Request) (rs : List Request) (m : ℕ) :
    answeredFrom last (rs.take m) = (answeredFrom last rs).take m := by
  induction rs generalizing last m with
  | nil => rw [List.take_nil, answeredFrom, List.take_nil]
  | cons r rs ih =>
    cases m with
    | zero => rfl
    | succ m => rw [List.take_succ_cons, answeredFrom, answeredFrom, List.take_succ_cons, ih]

/-- Each is the last one that decodes. -/
theorem answeredFrom_getElem? {last : Request} (hl : Decodes last) {rs : List Request} {i : ℕ} (hi : i < rs.length) :
    (answeredFrom last rs)[i]? = lastText ((last :: rs).take (i + 2)) := by
  induction rs generalizing last i with
  | nil => exact absurd hi (Nat.not_lt_zero i)
  | cons r rs ih =>
    -- the next one that can be answered, or the one before it
    have hnext : ∀ tail : List Request, lastText ((if Decodes r then r else last) :: tail) =
        lastText (last :: r :: tail) := by
      intro tail
      simp only [lastText, List.reverse_cons, List.append_assoc, List.find?_append]
      by_cases hr : Decodes r
      · simp [hr]
      · simp [hr, hl]
    have hdec : Decodes (if Decodes r then r else last) := by
      split
      · assumption
      · exact hl
    cases i with
    | zero =>
      have h := hnext []
      have hself : lastText [if Decodes r then r else last] = some (if Decodes r then r else last) := by
        simp [lastText, hdec]
      rw [answeredFrom, List.getElem?_cons_zero, ← hself]
      exact h
    | succ i =>
      rw [answeredFrom, List.getElem?_cons_succ, ih hdec (Nat.lt_of_succ_lt_succ hi)]
      exact hnext (rs.take (i + 1))

/-- After an answer every request that is not empty is answered with a frame. -/
theorem written_some {last : Request} {rs : List Request} (hdata : ∀ r ∈ rs, r.data ≠ []) :
    written (some (Json.dumps last.answer.dict)) rs = (answeredFrom last rs).flatMap fun r => frame r.answer := by
  induction rs generalizing last with
  | nil => rfl
  | cons r rs ih =>
    have h0 : r.data ≠ [] := hdata r List.mem_cons_self
    have hrest : ∀ r' ∈ rs, r'.data ≠ [] := fun r' hr' => hdata r' (List.mem_cons_of_mem r hr')
    rw [written, answeredFrom, List.flatMap_cons]
    by_cases hr : Decodes r
    · rw [if_pos hr, iteration_of_ascii _ h0 hr, ← ih hrest]
      rfl
    · rw [if_neg hr, iteration_stale (Json.dumps_ascii _) h0 hr, ← ih hrest]
      rfl

/-- The frames of the first requests. -/
theorem written_take {r : Request} {rs : List Request} (hdata : ∀ r' ∈ r :: rs, r'.data ≠ []) (hr : Decodes r) (m : ℕ) :
    written none ((r :: rs).take m) = ((r :: answeredFrom r rs).take m).flatMap fun r => frame r.answer := by
  cases m with
  | zero => rfl
  | succ m =>
    have hrest : ∀ r' ∈ rs.take m, r'.data ≠ [] := fun r' hr' =>
      hdata r' (List.mem_cons_of_mem r (List.mem_of_mem_take hr'))
    rw [List.take_succ_cons, List.take_succ_cons, written, iteration_of_ascii none (hdata r List.mem_cons_self) hr,
      List.flatMap_cons, ← answeredFrom_take, ← written_some hrest]
    rfl

/-- An answer is read back. -/
theorem loads_answer (a : Answer) : Json.loads (ascii (Json.dumps a.dict)) = some a.dict := by
  have hints : ∀ ns : List ℤ, Json.DistinctItems (ns.map .int) := by
    intro ns
    induction ns with
    | nil => exact trivial
    | cons n ns ih => exact ⟨trivial, ih⟩
  have hdistinct : Json.Distinct a.dict := by
    rw [Answer.dict, Json.Distinct]
    refine ⟨?_, trivial, trivial, ⟨hints a.token, trivial⟩, trivial, trivial⟩
    show [['a', 's', 'd'], ECHO_PAYLOAD, SECRETS, DATETIME].Nodup
    decide
  exact Json.loads_dumps hdistinct

/-- **What the calls return.** Of requests that are not empty, the first one ASCII, the calls
of `send` read a frame each, wherever the stream is cut: the k-th returns the answer to the
last of the first k requests that is ASCII, and all of them leave the stream where what was
written for their requests ends. -/
theorem calls_answered {rs : List Request} (hdata : ∀ r ∈ rs, r.data ≠ []) (hfirst : ∀ r, rs.head? = some r → Decodes r)
    {rest : List UInt8} {k : Pieces UInt8} (hk : k.bytes = written none rs ++ rest) {m : ℕ} (hm : m ≤ rs.length)
    {fuel : ℕ} (hf : k.bytes.length ≤ fuel) :
    ∃ (answered : List Request) (k' : Pieces UInt8), answered.length = m ∧
      (∀ i, i < m → answered[i]? = lastText (rs.take (i + 1))) ∧
      calls Json.loads fuel m k =
        some (answered.map fun r => .returned r.answer.dict (.str r.datetime), k') ∧
      k.bytes = written none (rs.take m) ++ k'.bytes := by
  cases rs with
  | nil =>
    obtain rfl : m = 0 := Nat.le_zero.mp hm
    exact ⟨[], k, rfl, fun i hi => absurd hi (Nat.not_lt_zero i), rfl, rfl⟩
  | cons r rs =>
    have hr : Decodes r := hfirst r rfl
    have hlen : (r :: answeredFrom r rs).length = (r :: rs).length := by
      rw [List.length_cons, List.length_cons, length_answeredFrom]
    have hwritten : written none (r :: rs) = (r :: answeredFrom r rs).flatMap fun r => frame r.answer := by
      have hall := written_take hdata hr (r :: rs).length
      rwa [List.take_length, ← hlen, List.take_length] at hall
    rw [hwritten] at hk
    have hm' : m ≤ (r :: answeredFrom r rs).length := by
      rw [hlen]
      exact hm
    have hframe : ∀ r' ∈ r :: answeredFrom r rs, (client Json.loads).consume (.header []) (frame r'.answer) =
        some (.returned r'.answer.dict (.str r'.datetime), []) :=
      fun r' _ => consume_frame (loads_answer r'.answer)
    obtain ⟨k', hcalls, hbytes⟩ := Reader.calls_frames (bytewise Json.loads) hframe hk hm' hf
    refine ⟨(r :: answeredFrom r rs).take m, k', ?_, fun i hi => ?_, hcalls, ?_⟩
    · rw [List.length_take, hlen]
      exact Nat.min_eq_left hm
    · rw [List.getElem?_take_of_lt hi]
      cases i with
      | zero => simp [lastText, hr]
      | succ i =>
        have hi : i < rs.length := Nat.lt_of_succ_lt_succ (lt_of_lt_of_le hi hm)
        rw [List.getElem?_cons_succ, answeredFrom_getElem? hr hi]
    · rw [hk, hbytes, written_take hdata hr, ← List.append_assoc, ← List.flatMap_append, List.take_append_drop]

/-- `ping`, and a byte that is not ASCII, answered in one piece. -/
def twoRequests : List Request := [ping, ⟨[200], [], []⟩]

def onePiece : Pieces UInt8 where
  pieces := [written none twoRequests]
  nonempty := by decide +kernel

theorem calls_answered_twice : ∃ (answered : List Request) (k' : Pieces UInt8), answered.length = 2 ∧
    (∀ i, i < 2 → answered[i]? = lastText (twoRequests.take (i + 1))) ∧
    calls Json.loads 400 2 onePiece = some (answered.map fun r => .returned r.answer.dict (.str r.datetime), k') ∧
    onePiece.bytes = written none (twoRequests.take 2) ++ k'.bytes :=
  @calls_answered twoRequests (by decide) (fun r hr => by obtain rfl := Option.some.inj hr; decide) []
    onePiece (by decide +kernel) 2 (by decide) 400 (by decide +kernel)

end Answers
end Netacademia
