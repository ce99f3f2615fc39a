/-
# The loop of the JSON server

`listenToClient` of `python-beginner/3.ora/server.py`: receive, answer, again.
A `UnicodeDecodeError` is caught inside of the loop and only printed, so the
iteration goes on to send `serialized`, which still holds the answer to an
earlier request. The loop ends by an exception alone: `if data:` has no other
branch, and at the end of the stream `recv` returns nothing over and over.

* `own_answers_iff`: every frame echoes the data of its own iteration exactly
  when all strings are ASCII, or the first one is not.
* `loop_ends_iff`: the loop ends exactly when a send fails, or the first string is
  not ASCII.
-/
import Netacademia.Wire

namespace Netacademia
namespace Listen

open Lib Wire

/-! ### The iterations of a connection -/

/-- The iterations on what `recv` returned, as far as the loop goes. -/
def served : Option (List Char) → List Request → List (Request × Iteration)
  | _, [] => []
  | serialized, r :: rs =>
    let i := iteration serialized r
    (r, i) :: if i.goesOn then served i.serialized rs else []

/-- `data.decode('ascii')` succeeds. -/
def Decodes (r : Request) : Prop := r.data.all (· < 128) = true

instance : DecidablePred Decodes := fun _ => inferInstanceAs (Decidable (_ = true))

/-- An iteration writes nothing, or a frame that echoes its own data; on data that
does not decode it writes nothing or closes the connection. -/
def Own (r : Request) (i : Iteration) : Prop :=
  (i.header ++ i.payload = [] ∨
    ∃ a : Answer, encodeAscii a.echoPayload = some r.data ∧ i.header = header (Json.dumps a.dict).length ∧
      i.payload = ascii (Json.dumps a.dict)) ∧
  (¬ Decodes r → i.header ++ i.payload = [] ∨ i.goesOn = false)

/-- The first string that is not empty does not decode, or all of them do. -/
def Clean : List Request → Prop
  | [] => True
  | r :: rs => if r.data = [] then Clean rs else ¬ Decodes r ∨ ∀ x ∈ rs, Decodes x

/-! ### One iteration -/

theorem header_ne_nil (n : ℕ) : header n ≠ [] := by simp [header]

theorem iteration_of_nil (serialized : Option (List Char)) {r : Request} (h : r.data = []) :
    iteration serialized r = ⟨serialized, [], [], true⟩ := if_pos h

/-- Without an answer from before, data that does not decode closes the connection. -/
theorem iteration_none {r : Request} (h0 : r.data ≠ []) (h : ¬ Decodes r) :
    iteration none r = ⟨none, [], [], false⟩ := by
  have hd : decodeAscii r.data = none := if_neg h
  simp only [iteration, h0, if_false, hd]

/-- With one it sends that answer again. -/
theorem iteration_stale {text : List Char} (ht : Json.IsAscii text) {r : Request} (h0 : r.data ≠ [])
    (h : ¬ Decodes r) : iteration (some text) r = ⟨some text, header text.length, ascii text, true⟩ := by
  have hd : decodeAscii r.data = none := if_neg h
  have he : encodeAscii text = some (ascii text) :=
    if_pos (List.all_eq_true.mpr fun c hc => decide_eq_true (ht c hc))
  simp only [iteration, h0, if_false, hd, he]

/-- On data that decodes it sends the answer to it. -/
theorem own_of_decodes (serialized : Option (List Char)) {r : Request} (h0 : r.data ≠ []) (h : Decodes r) :
    Own r (iteration serialized r) := by
  rw [iteration_of_ascii serialized h0 h]
  exact ⟨Or.inr ⟨r.answer, encodeAscii_asciiText h, rfl, rfl⟩, fun hn => absurd h hn⟩

/-- An answer from before is not the own one. -/
theorem not_own_stale {text : List Char} (ht : Json.IsAscii text) {r : Request} (h0 : r.data ≠ [])
    (h : ¬ Decodes r) : ¬ Own r (iteration (some text) r) := by
  rw [iteration_stale ht h0 h]
  rintro ⟨-, hclosed⟩
  rcases hclosed h with hw | hw
  · exact header_ne_nil _ (List.append_eq_nil_iff.mp hw).1
  · cases hw

/-! ### Whose answer is sent -/

/-- Once an answer was sent, all data has to decode. -/
theorem own_answers_some {text : List Char} (ht : Json.IsAscii text) (rs : List Request) :
    (∀ p ∈ served (some text) rs, Own p.1 p.2) ↔ ∀ r ∈ rs, Decodes r := by
  induction rs generalizing text with
  | nil => simp [served]
  | cons r rs ih =>
    rw [served, List.forall_mem_cons, List.forall_mem_cons]
    by_cases h0 : r.data = []
    · have hd : Decodes r := by rw [Decodes, h0]; rfl
      have hown : Own r (iteration (some text) r) := by
        rw [iteration_of_nil _ h0]
        exact ⟨Or.inl rfl, fun hn => absurd hd hn⟩
      rw [iteration_of_nil _ h0] at hown ⊢
      exact and_congr (iff_of_true hown hd) (ih ht)
    · by_cases hd : Decodes r
      · have hown := own_of_decodes (some text) h0 hd
        rw [iteration_of_ascii _ h0 hd] at hown ⊢
        exact and_congr (iff_of_true hown hd) (ih (Json.dumps_ascii _))
      · exact iff_of_false (fun h => not_own_stale ht h0 hd h.1) fun h => hd h.1

/-- **Whose answer is sent.** Each frame echoes the data of the iteration that
writes it, and data that does not decode leads to no frame, if and only if all
data decodes, or the first that is not empty does not. -/
theorem own_answers_iff (rs : List Request) : (∀ p ∈ served none rs, Own p.1 p.2) ↔ Clean rs := by
  induction rs with
  | nil => simp [served, Clean]
  | cons r rs ih =>
    rw [served, List.forall_mem_cons, Clean]
    by_cases h0 : r.data = []
    · have hd : Decodes r := by rw [Decodes, h0]; rfl
      rw [if_pos h0, iteration_of_nil _ h0, and_iff_right ⟨Or.inl rfl, fun hn => absurd hd hn⟩]
      exact ih
    · rw [if_neg h0]
      by_cases hd : Decodes r
      · have hown := own_of_decodes none h0 hd
        rw [iteration_of_ascii _ h0 hd] at hown ⊢
        rw [and_iff_right hown, or_iff_right (not_not.mpr hd)]
        exact own_answers_some (Json.dumps_ascii _) rs
      · rw [iteration_none h0 hd]
        refine iff_of_true ⟨⟨Or.inl rfl, fun _ => Or.inl rfl⟩, fun p hp => ?_⟩ (Or.inl hd)
        cases hp

/-- `ping`, then a byte that is not ASCII: the second frame is the answer to the first. -/
theorem ping_answered_twice : ¬ ∀ rs, ∀ p ∈ served none rs, Own p.1 p.2 := by
  intro h
  have hping := iteration_of_ascii none (r := ping) (by decide) (by decide)
  have hrest : ∀ p ∈ served (some (Json.dumps ping.answer.dict)) [⟨[200], [], []⟩], Own p.1 p.2 := by
    intro p hp
    refine h [ping, ⟨[200], [], []⟩] p ?_
    rw [served, hping]
    exact List.mem_cons_of_mem _ hp
  exact absurd ((own_answers_some (Json.dumps_ascii _) _).mp hrest) (by decide)

/-! ### Whether the loop ends -/

/-- A string that `recv` returned, and whether `send` and `sendall` return. -/
structure Round where
  request : Request
  sendOk : Bool
  sendallOk : Bool

/-- An iteration whose sends may raise. -/
def round (serialized : Option (List Char)) (r : Round) : Iteration :=
  let i := iteration serialized r.request
  -- without a header there was no call
  if i.header = [] then i else { i with goesOn := i.goesOn && r.sendOk && r.sendallOk }

/-- `recv` at the end of the stream. -/
def eof : Round := ⟨⟨[], [], []⟩, true, true⟩

/-- `fuel` iterations of `listenToClient` at most: whether an exception ends the
loop, which closes the socket and returns. After the rounds the stream has ended. -/
def loop : ℕ → Option (List Char) → List Round → Bool
  | 0, _, _ => false
  | fuel + 1, serialized, rs =>
    let i := round serialized (rs.headD eof)
    if i.goesOn then loop fuel i.serialized rs.tail else true

/-- A send of the round raises. -/
def Fails (r : Round) : Prop := r.sendOk = false ∨ r.sendallOk = false

instance : DecidablePred Fails := fun _ => inferInstanceAs (Decidable (_ ∨ _))

/-- The end of the stream does not end the loop. -/
theorem loop_eof (fuel : ℕ) (serialized : Option (List Char)) : loop fuel serialized [] = false := by
  induction fuel with
  | zero => rfl
  | succ fuel ih => exact ih

/-- An iteration that sends ends the loop where a send raises. -/
theorem loop_of_sent {serialized : Option (List Char)} {text : List Char} {payload : List UInt8} {r : Round}
    {rs : List Round} (hi : iteration serialized r.request = ⟨some text, header text.length, payload, true⟩)
    (fuel : ℕ) : loop (fuel + 1) serialized (r :: rs) = if Fails r then true else loop fuel (some text) rs := by
  have hround : round serialized r = ⟨some text, header text.length, payload, r.sendOk && r.sendallOk⟩ := by
    rw [round, hi]
    exact if_neg (header_ne_nil _)
  rw [loop, List.headD_cons, hround, List.tail_cons]
  by_cases hf : Fails r
  · have hgo : (r.sendOk && r.sendallOk) = false := by
      rcases hf with h | h <;> simp [h]
    rw [if_pos hf, hgo, if_neg Bool.false_ne_true]
  · have hgo : (r.sendOk && r.sendallOk) = true := by
      obtain ⟨h1, h2⟩ := not_or.mp hf
      rw [eq_true_of_ne_false h1, eq_true_of_ne_false h2, Bool.and_self]
    rw [if_neg hf, hgo, if_pos rfl]

theorem exists_loop_of_sent {serialized : Option (List Char)} {text : List Char} {payload : List UInt8}
    {r : Round} {rs : List Round} (hi : iteration serialized r.request = ⟨some text, header text.length, payload, true⟩) :
    (∃ fuel, loop fuel serialized (r :: rs) = true) ↔ Fails r ∨ ∃ fuel, loop fuel (some text) rs = true := by
  by_cases hf : Fails r
  · refine iff_of_true ⟨1, ?_⟩ (Or.inl hf)
    rw [loop_of_sent hi, if_pos hf]
  · rw [or_iff_right hf]
    constructor
    · rintro ⟨fuel, h⟩
      cases fuel with
      | zero => cases h
      | succ fuel =>
        rw [loop_of_sent hi, if_neg hf] at h
        exact ⟨fuel, h⟩
    · rintro ⟨fuel, h⟩
      refine ⟨fuel + 1, ?_⟩
      rw [loop_of_sent hi, if_neg hf, h]

/-- Once there is an answer every iteration sends, and only a send ends the loop. -/
theorem loop_some_iff {text : List Char} (ht : Json.IsAscii text) {rs : List Round}
    (h : ∀ r ∈ rs, r.request.data ≠ []) : (∃ fuel, loop fuel (some text) rs = true) ↔ ∃ r ∈ rs, Fails r := by
  induction rs generalizing text with
  | nil => simp [loop_eof]
  | cons r rs ih =>
    have h0 := h r List.mem_cons_self
    have hrs : ∀ x ∈ rs, x.request.data ≠ [] := fun x hx => h x (List.mem_cons_of_mem _ hx)
    obtain ⟨text', ht', payload, hi⟩ : ∃ text', Json.IsAscii text' ∧ ∃ payload,
        iteration (some text) r.request = ⟨some text', header text'.length, payload, true⟩ := by
      by_cases hd : Decodes r.request
      · exact ⟨_, Json.dumps_ascii _, _, iteration_of_ascii _ h0 hd⟩
      · exact ⟨_, ht, _, iteration_stale ht h0 hd⟩
    rw [exists_loop_of_sent hi, ih ht' hrs, List.exists_mem_cons_iff]

/-- **When the loop ends.** After any strings, none of them empty, and the end of
the stream, the loop ends if and only if one of the sends raises, or the first
string does not decode. -/
theorem loop_ends_iff (rs : List Round) (h : ∀ r ∈ rs, r.request.data ≠ []) :
    (∃ fuel, loop fuel none rs = true) ↔ (∃ r ∈ rs, Fails r) ∨ ∃ r ∈ rs.head?, ¬ Decodes r.request := by
  cases rs with
  | nil => simp [loop_eof]
  | cons r rs =>
    have h0 := h r List.mem_cons_self
    have hrs : ∀ x ∈ rs, x.request.data ≠ [] := fun x hx => h x (List.mem_cons_of_mem _ hx)
    have hhead : (∃ x ∈ (r :: rs).head?, ¬ Decodes x.request) ↔ ¬ Decodes r.request := by simp
    rw [hhead]
    by_cases hd : Decodes r.request
    · have hi := iteration_of_ascii none h0 hd
      rw [exists_loop_of_sent hi, loop_some_iff (Json.dumps_ascii _) hrs, List.exists_mem_cons_iff,
        or_iff_left (not_not.mpr hd)]
    · refine iff_of_true ⟨1, ?_⟩ (Or.inr hd)
      rw [loop, List.headD_cons, round, iteration_none h0 hd]
      rfl

/-- The theorem on two strings, the second `sendall` of which raises. -/
theorem loop_ends_iff_sendall : (∃ fuel, loop fuel none [⟨ping, true, true⟩, ⟨hello, true, false⟩] = true) ↔
    (∃ r ∈ [⟨ping, true, true⟩, (⟨hello, true, false⟩ : Round)], Fails r) ∨
      ∃ r ∈ [⟨ping, true, true⟩, (⟨hello, true, false⟩ : Round)].head?, ¬ Decodes r.request :=
  loop_ends_iff [⟨ping, true, true⟩, ⟨hello, true, false⟩] (by decide)

/-- `ping`, all of it answered, then the end of the stream: the loop goes on. -/
theorem ping_then_eof :
    ¬ ∀ rs : List Round, (∀ r ∈ rs, r.request.data ≠ []) → ∃ fuel, loop fuel none rs = true := by
  intro h
  obtain ⟨fuel, hf⟩ := h [⟨ping, true, true⟩] (by decide)
  have hi := iteration_of_ascii none (r := ping) (by decide) (by decide)
  cases fuel with
  | zero => cases hf
  | succ fuel =>
    have hsent : ¬ Fails ⟨ping, true, true⟩ := by decide
    rw [loop_of_sent (r := ⟨ping, true, true⟩) hi, if_neg hsent, loop_eof] at hf
    cases hf

end Listen
end Netacademia
