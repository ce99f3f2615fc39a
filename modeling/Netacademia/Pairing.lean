/-
# Requests and replies of the JSON client and server

`python-beginner/3.ora` on one connection: any number of calls of
`socketClient.send`, and `listenToClient`, which takes what a `recv(1024)`
returns for a request. The two streams are cut in any way, and `client.send`
accepts any part of the header it is given; its result is not looked at.

* `paired_along`: as long as each `recv` of the server returns one whole
  request and each header is accepted whole, every call gets the answer to its
  own request, and nothing is left in the stream.
* `cut_request_misanswered`: a request of which the server receives a part at
  first is answered by that part.
-/
import Netacademia.Lib.Machine
import Netacademia.Wire

namespace Netacademia
namespace Pairing

open Lib Wire

structure Sys where
  /-- The streams: bytes written and not yet read. -/
  toServer : List UInt8
  toClient : List UInt8
  /-- Where the running call of `send` is; none between calls. -/
  client : Option Client
  /-- The variable of `listenToClient`. -/
  serialized : Option (List Char)
  /-- The loop of `listenToClient` goes on. -/
  serving : Bool

inductive Event
  /-- The client calls `send`, which sends the request. -/
  | call
  /-- A receive call of the client returns `n` bytes. (After the server has closed
  one returns nothing, and changes nothing.) -/
  | recv (n : ℕ)
  /-- `recv(1024)` of the server returns `n` bytes, and `send` accepts
  `accepted` bytes of the header. -/
  | serve (n accepted : ℕ) (token : List ℤ) (datetime : List Char)

section System

variable (loads : List UInt8 → Option Json)

/-- What is left of a call: nothing when it has returned. -/
def running : Client → Option Client
  | .returned _ _ => none
  | c => some c

/-- The request the server takes. -/
def request (s : Sys) (n : ℕ) (token : List ℤ) (datetime : List Char) : Request :=
  ⟨s.toServer.take n, token, datetime⟩

def step (s : Sys) : Event → Option Sys
  | .call =>
    match s.client with
    | none => some { s with toServer := s.toServer ++ PING, client := some (.header []) }
    | some _ => none
  | .recv n =>
    match s.client with
    | none => none
    | some c =>
      if 0 < n ∧ n ≤ c.want ∧ n ≤ s.toClient.length then
        some { s with toClient := s.toClient.drop n, client := running (c.feed loads (s.toClient.take n)) }
      else none
  | .serve n accepted token datetime =>
    if s.serving = true ∧ 0 < n ∧ n ≤ 1024 ∧ n ≤ s.toServer.length then
      let i := iteration s.serialized (request s n token datetime)
      some { s with toServer := s.toServer.drop n, serialized := i.serialized, serving := i.goesOn,
                    toClient := s.toClient ++ i.header.take accepted ++ i.payload }
    else none

def connection : Machine Sys Event where
  init := { toServer := [], toClient := [], client := none, serialized := none, serving := true }
  step := step loads

/-- The answers given and the values the calls parsed, in their order. -/
structure Past where
  answers : List Answer
  results : List Json

def past (p : Past) (s : Sys) : Event → Past
  | .call => p
  | .recv n =>
    match s.client.map fun c => Client.feed loads c (s.toClient.take n) with
    | some (.returned d _) => { p with results := p.results ++ [d] }
    | _ => p
  | .serve n _ token datetime => { p with answers := p.answers ++ [(request s n token datetime).answer] }

def connectionPast : Machine (Sys × Past) Event := (connection loads).history ⟨[], []⟩ (past loads)

end System

/-- The text of the request. -/
def pingText : List Char := ['p', 'i', 'n', 'g']

/-- What the calls of a run may rely on. -/
structure Paired (s : Sys × Past) : Prop where
  /-- The k-th call got the k-th answer. -/
  pairs : s.2.results.length ≤ s.2.answers.length ∧
    s.2.results = (s.2.answers.take s.2.results.length).map Answer.dict
  /-- It echoes the request. -/
  echo : ∀ d ∈ s.2.results, (d.getItem ECHO_PAYLOAD).bind Json.asStr = some pingText
  /-- Between two calls nothing is left over. -/
  clean : s.1.client = none → s.1.toClient = []
  /-- A running call still gets its reply. -/
  due : ∀ c, s.1.client = some c →
    c.want ≠ 0 ∧ s.1.serving = true ∧ (s.1.toServer ≠ [] ∨ s.1.toClient ≠ [])

/-- The server receives one whole request, and its header is accepted whole. -/
def Whole (s : Sys × Past) : Event → Prop
  | .serve n accepted token datetime =>
    s.1.toServer.take n = PING ∧
      (iteration s.1.serialized (request s.1 n token datetime)).header.length ≤ accepted
  | _ => True

instance : ∀ s e, Decidable (Whole s e)
  | s, .serve n _ _ _ => inferInstanceAs (Decidable (s.1.toServer.take n = PING ∧ _))
  | _, .call | _, .recv _ => isTrue trivial

/-- `json.loads` inverts `json.dumps` on the answer to a `ping`. -/
def Parses (loads : List UInt8 → Option Json) : Event → Prop
  | .serve _ _ token datetime =>
    loads (ascii (Json.dumps (Answer.dict ⟨pingText, token, datetime⟩))) =
      some (Answer.dict ⟨pingText, token, datetime⟩)
  | _ => True

/-! ### The phases of a call -/

inductive Phase (loads : List UInt8 → Option Json) (s : Sys × Past) : Prop
  | idle : s.1.client = none → s.1.toServer = [] → s.1.toClient = [] →
      s.2.results = s.2.answers.map Answer.dict → Phase loads s
  | requested : s.1.client = some (.header []) → s.1.toServer = PING → s.1.toClient = [] →
      s.2.results = s.2.answers.map Answer.dict → Phase loads s
  | answered (c : Client) (as : List Answer) (a : Answer) : s.1.client = some c → c.want ≠ 0 →
      s.1.toServer = [] → s.2.answers = as ++ [a] → s.2.results = as.map Answer.dict →
      (client loads).consume c s.1.toClient = some (.returned a.dict (.str a.datetime), []) → Phase loads s

structure Inv (loads : List UInt8 → Option Json) (s : Sys × Past) : Prop where
  phase : Phase loads s
  serving : s.1.serving = true
  echo : ∀ a ∈ s.2.answers, a.echoPayload = pingText

section Steps

variable {loads : List UInt8 → Option Json}

theorem inv_init : Inv loads (connectionPast loads).init where
  phase := .idle rfl rfl rfl rfl
  serving := rfl
  echo a h := by cases h

theorem echo_dict {as : List Answer} (h : ∀ a ∈ as, a.echoPayload = pingText) :
    ∀ d ∈ as.map Answer.dict, (d.getItem ECHO_PAYLOAD).bind Json.asStr = some pingText := by
  intro d hd
  obtain ⟨a, ha, rfl⟩ := List.mem_map.mp hd
  rw [← h a ha]
  rfl

theorem inv_paired (s : Sys × Past) (h : Inv loads s) : Paired s := by
  obtain ⟨hp, hs, he⟩ := h
  cases hp with
  | idle hc h1 h2 hr =>
    refine ⟨by simp [hr], hr ▸ echo_dict he, fun _ => h2, fun c h => ?_⟩
    simp [hc] at h
  | requested hc h1 h2 hr =>
    refine ⟨by simp [hr], hr ▸ echo_dict he, fun _ => h2, fun c h => ?_⟩
    obtain rfl : Client.header [] = c := by simpa [hc] using h
    exact ⟨by decide, hs, Or.inl (by rw [h1]; decide)⟩
  | answered c as a hc hw h1 ha hr hcons =>
    refine ⟨?_, ?_, fun h => by simp [hc] at h, fun d h => ?_⟩
    · rw [hr, ha]
      simp
    · rw [hr]
      exact echo_dict fun b hb => he b (by simp [ha, hb])
    · obtain rfl : c = d := by simpa [hc] using h
      refine ⟨hw, hs, Or.inr fun h0 => ?_⟩
      have hw' : (client loads).want c ≠ 0 := hw
      rw [h0, Reader.consume, if_neg hw'] at hcons
      cases hcons

theorem inv_call {s s' : Sys} {p : Past} (h : Inv loads (s, p)) (hs : step loads s .call = some s') :
    Inv loads (s', p) := by
  obtain ⟨hp, hv, he⟩ := h
  cases hp with
  | idle hc h1 h2 hr =>
    simp only [step, show s.client = none from hc, Option.some.injEq] at hs
    rw [← hs]
    exact ⟨.requested rfl (by simp [show s.toServer = [] from h1]) h2 hr, hv, he⟩
  | requested hc _ _ _ => simp [step, show s.client = _ from hc] at hs
  | answered c as a hc _ _ _ _ _ => simp [step, show s.client = _ from hc] at hs

theorem running_of_want {c : Client} (h : c.want ≠ 0) : running c = some c := by
  cases c with
  | returned d t => exact absurd rfl h
  | _ => rfl

/-- A call that goes on has no result. -/
theorem past_recv_of_want {s : Sys} {p : Past} {n : ℕ} {c : Client} (hc : s.client = some c)
    (h : (Client.feed loads c (s.toClient.take n)).want ≠ 0) : past loads p s (.recv n) = p := by
  simp only [past, hc, Option.map_some]
  split
  · rename_i d t hd
    rw [Option.some.inj hd] at h
    exact absurd rfl h
  · rfl

/-- A receive call takes a part of the frame, or the rest of it. -/
theorem inv_recv {s s' : Sys} {p : Past} {n : ℕ} (h : Inv loads (s, p)) (hs : step loads s (.recv n) = some s') :
    Inv loads (s', past loads p s (.recv n)) := by
  obtain ⟨hp, hv, he⟩ := h
  cases hp with
  | idle hc _ _ _ => simp [step, show s.client = none from hc] at hs
  | requested hc _ h2 _ =>
    simp only [step, show s.client = _ from hc, show s.toClient = [] from h2] at hs
    split at hs
    · rename_i hn
      simp only [List.length_nil] at hn
      omega
    · cases hs
  | answered c as a hc hw h1 ha hr hcons =>
    have hc : s.client = some c := hc
    simp only [step, hc] at hs
    split at hs
    · rename_i hn
      obtain ⟨hpos, hle, hlen⟩ := hn
      rw [← Option.some.inj hs]
      -- the chunk is consumed as a whole
      have hcons' := Reader.consume_take (bytewise loads) (s := c) hpos hle hlen
      rw [show (client loads).consume c s.toClient = _ from hcons] at hcons'
      by_cases hw' : (client loads).want (Client.feed loads c (s.toClient.take n)) = 0
      · obtain ⟨hret, hdrop⟩ := Prod.mk.inj
          (Option.some.inj (hcons'.trans (Reader.consume_of_want_zero _ hw' (s.toClient.drop n))))
        have hpast : past loads p s (.recv n) = { p with results := p.results ++ [a.dict] } := by
          simp only [past, hc, Option.map_some, ← hret]
        rw [hpast]
        refine ⟨.idle (by simp only [← hret]; rfl) h1 hdrop.symm ?_, hv, he⟩
        rw [show p.results = as.map Answer.dict from hr, show p.answers = as ++ [a] from ha, List.map_append]
        rfl
      · rw [past_recv_of_want hc hw']
        exact ⟨.answered _ as a (running_of_want hw') hw' h1 ha hr hcons'.symm, hv, he⟩
    · cases hs

theorem inv_serve {s s' : Sys} {p : Past} {n accepted : ℕ} {token : List ℤ} {datetime : List Char}
    (h : Inv loads (s, p)) (hw : Whole (s, p) (.serve n accepted token datetime))
    (hl : Parses loads (.serve n accepted token datetime))
    (hs : step loads s (.serve n accepted token datetime) = some s') :
    Inv loads (s', past loads p s (.serve n accepted token datetime)) := by
  obtain ⟨hp, hv, he⟩ := h
  simp only [step] at hs
  split at hs
  · rename_i hn
    obtain ⟨-, hpos, -, hlen⟩ := hn
    rw [← Option.some.inj hs]
    cases hp with
    | idle _ h1 _ _ =>
      simp only [show s.toServer = [] from h1, List.length_nil] at hlen
      omega
    | answered c as a _ _ h1 _ _ _ =>
      simp only [show s.toServer = [] from h1, List.length_nil] at hlen
      omega
    | requested hc h1 h2 hr =>
      obtain ⟨hping, hacc⟩ := hw
      have h1 : s.toServer = PING := h1
      have hping : s.toServer.take n = PING := hping
      have hreq : request s n token datetime = ⟨PING, token, datetime⟩ := by
        simp only [request, hping]
      have hdrop : s.toServer.drop n = [] := by
        rw [h1] at hping ⊢
        exact List.drop_eq_nil_iff.mpr ((List.take_eq_self_iff PING).mp hping)
      have hi := iteration_of_ascii s.serialized (r := ⟨PING, token, datetime⟩)
        (show PING ≠ [] by decide) (show PING.all (· < 128) by decide)
      have ha : Request.answer ⟨PING, token, datetime⟩ = ⟨pingText, token, datetime⟩ := rfl
      simp only [hreq, hi, ha] at hacc ⊢
      rw [List.take_of_length_le hacc, show s.toClient = [] from h2, hdrop]
      refine ⟨.answered (.header []) p.answers ⟨pingText, token, datetime⟩ hc (by decide) rfl ?_ hr
        (consume_frame hl), rfl, ?_⟩
      · simp only [past, hreq, ha]
      · intro b hb
        simp only [past, hreq, ha, List.mem_append, List.mem_singleton] at hb
        rcases hb with hb | rfl
        · exact he b hb
        · rfl
  · cases hs

theorem inv_step : (connectionPast loads).Preserves (Inv loads) fun s e => Whole s e ∧ Parses loads e := by
  rintro ⟨s, p⟩ e ⟨s', p'⟩ h ⟨hw, hl⟩ hstep
  obtain ⟨hs, rfl⟩ : step loads s e = some s' ∧ p' = past loads p s e := Machine.history_step.mp hstep
  cases e with
  | call => exact inv_call h hs
  | recv n => exact inv_recv h hs
  | serve n accepted token datetime => exact inv_serve h hw hl hs

end Steps

/-- **Each call gets its own reply**, in every run in which the server receives
whole requests, one at a time, and sends whole headers. -/
theorem paired_along (loads : List UInt8 → Option Json) (es : List Event) (hl : ∀ e ∈ es, Parses loads e)
    (hw : (connectionPast loads).Along Whole (connectionPast loads).init es) :
    (connectionPast loads).Throughout Paired (connectionPast loads).init es :=
  ((connectionPast loads).throughout_of_along inv_step inv_init (hw.and_forall _ hl)).mono _ inv_paired

/-! ### A request that is cut -/

/-- Receive calls of one byte finish the call that the stream completes. -/
theorem run_recv {loads : List UInt8 → Option Json} {bs : List UInt8} {c : Client} {d t : Json}
    (hw : c.want ≠ 0) (hcons : (client loads).consume c bs = some (.returned d t, [])) {s : Sys} (p : Past)
    (hc : s.client = some c) (hs : s.toClient = bs) :
    (connectionPast loads).run (s, p) (List.replicate bs.length (.recv 1)) =
      some ({ s with toClient := [], client := none }, { p with results := p.results ++ [d] }) := by
  induction bs generalizing c s p with
  | nil => simp [Reader.consume, show (client loads).want c ≠ 0 from hw] at hcons
  | cons b bs ih =>
    have hpos : 0 < c.want := Nat.pos_of_ne_zero hw
    have hstep : (connectionPast loads).step (s, p) (.recv 1) =
        some ({ s with toClient := bs, client := running (Client.feed loads c [b]) },
          past loads p s (.recv 1)) :=
      Machine.history_step.mpr ⟨by simp [connection, step, hc, hs, Nat.succ_le_of_lt hpos], rfl⟩
    rw [Reader.consume_cons _ hw] at hcons
    rw [List.length_cons, List.replicate_succ, Machine.run_cons, hstep, Option.bind_some]
    by_cases hw' : (client loads).want (Client.feed loads c [b]) = 0
    · obtain ⟨hret, rfl⟩ := Prod.mk.inj
        (Option.some.inj ((Reader.consume_of_want_zero _ hw' bs).symm.trans hcons))
      have hret : Client.feed loads c [b] = .returned d t := hret
      simp [past, hc, hs, hret, running]
    · have htake : s.toClient.take 1 = [b] := by simp [hs]
      rw [past_recv_of_want hc (by rw [htake]; exact hw'), running_of_want hw']
      exact ih hw' hcons p rfl rfl

/-- A request of which the server receives only a part at first: the call gets
the answer to that part. -/
theorem cut_request_misanswered {loads : List UInt8 → Option Json} {s : Sys} (p : Past)
    (hc : s.client = some (.header [])) (h1 : s.toServer = PING) (h2 : s.toClient = [])
    (hv : s.serving = true) {n accepted : ℕ} (h0 : 0 < n) (hn : n < PING.length) {token : List ℤ}
    {datetime : List Char} {a : Answer} (ha : a = (request s n token datetime).answer)
    (hacc : (header (Json.dumps a.dict).length).length ≤ accepted)
    (hl : loads (ascii (Json.dumps a.dict)) = some a.dict) :
    ¬ (connectionPast loads).Throughout Paired (s, p)
      (.serve n accepted token datetime :: List.replicate (frame a).length (.recv 1)) := by
  intro h
  have hreq : request s n token datetime = ⟨PING.take n, token, datetime⟩ := by rw [request, h1]
  rw [hreq] at ha
  -- the server answers what it received
  have hne : PING.take n ≠ [] := by
    rw [Ne, List.take_eq_nil_iff, not_or]
    exact ⟨h0.ne', by decide⟩
  have hall : (PING.take n).all (· < 128) := by
    have hping : PING.all (· < 128) := by decide
    exact List.all_eq_true.mpr fun b hb => List.all_eq_true.mp hping b (List.mem_of_mem_take hb)
  have hi := iteration_of_ascii s.serialized (r := ⟨PING.take n, token, datetime⟩) hne hall
  rw [← ha] at hi
  have hstep : (connectionPast loads).step (s, p) (.serve n accepted token datetime) =
      some ({ s with toServer := s.toServer.drop n, serialized := some (Json.dumps a.dict),
                     toClient := frame a },
        { p with answers := p.answers ++ [a] }) := by
    refine Machine.history_step.mpr ⟨?_, by simp [past, hreq, ha]⟩
    have hlen : n ≤ s.toServer.length := by
      rw [h1]
      exact hn.le
    have h1024 : n ≤ 1024 := hn.le.trans (by decide)
    simp only [connection, step, hv, h0, h1024, hlen, and_self, if_true, hreq, hi, h2, List.nil_append,
      List.take_of_length_le hacc]
    rfl
  have hrun := run_recv (by decide) (consume_frame hl)
    (s := { s with toServer := s.toServer.drop n, serialized := some (Json.dumps a.dict), toClient := frame a })
    { p with answers := p.answers ++ [a] } hc rfl
  -- and the call returns it
  have hpaired := (connectionPast loads).throughout_iff.mp (h.2 _ hstep) _ [] _ (List.append_nil _).symm hrun
  have hecho : some a.echoPayload = some pingText := hpaired.echo a.dict (by simp)
  have hlen : (asciiText (PING.take n)).length = pingText.length := by
    rw [ha] at hecho
    exact congrArg List.length (Option.some.inj hecho)
  rw [asciiText, List.length_map, List.length_take, Nat.min_eq_left hn.le] at hlen
  exact absurd hlen (Nat.ne_of_lt hn)

/-- A call whose answer has 118 characters, taken in two parts. -/
def round : List Event :=
  .call :: .serve 4 4 ping.token ping.datetime ::
    (List.replicate 4 (.recv 1) ++ [.recv 50, .recv 68])

/-- The theorem on two calls. -/
theorem paired_along_rounds : (connectionPast (loadsOf [ping.answer])).Throughout Paired
    (connectionPast (loadsOf [ping.answer])).init (round ++ round) := by
  have hround : ∀ e ∈ round, Parses (loadsOf [ping.answer]) e := by
    simp only [round, List.forall_mem_cons, List.forall_mem_append, List.mem_replicate]
    exact ⟨trivial, rfl, fun e he => he.2 ▸ trivial, trivial, trivial, nofun⟩
  exact paired_along _ _ (List.forall_mem_append.mpr ⟨hround, hround⟩) (by decide +kernel)

/-- The answer to the first half of a request. -/
def half : Answer := ⟨['p', 'i'], ping.token, ping.datetime⟩

/-- A request received in two parts: the call gets the answer to the first one. -/
theorem half_request_answered :
    ¬ ∀ es, (connectionPast (loadsOf [half])).Throughout Paired (connectionPast (loadsOf [half])).init es := by
  intro h
  have hecho := (h (.call :: .serve 2 4 ping.token ping.datetime ::
    (List.replicate 4 (.recv 1) ++ [.recv 116]))).mono _ fun _ hp => hp.echo
  exact absurd hecho (by decide +kernel)

end Pairing
end Netacademia
