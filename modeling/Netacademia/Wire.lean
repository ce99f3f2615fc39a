/-
# Answers on the wire

`python-beginner/3.ora`. `listenToClient` of server.py answers what `recv`
returned with a frame: the length of the JSON text in decimal, a newline, the
text. `socketClient.send` of client.py sends `ping` and reads one frame: the
length a byte at a time up to the newline, then the text in as many calls as it
takes.

* `calls_written`: however the stream is cut, consecutive calls of `send` take
  one frame each, and the k-th parses the k-th answer.
-/
import Netacademia.Lib.Reader
import Netacademia.Lib.Json

namespace Netacademia
namespace Wire

open Lib

/-! ### The server -/

def ECHO_PAYLOAD : List Char := ['e', 'c', 'h', 'o', '_', 'p', 'a', 'y', 'l', 'o', 'a', 'd']

def SECRETS : List Char := ['s', 'e', 'c', 'r', 'e', 't', 's']

def DATETIME : List Char := ['d', 'a', 't', 'e', 't', 'i', 'm', 'e']

/-- What an iteration of `listenToClient` puts in its answer. -/
structure Answer where
  echoPayload : List Char
  token : List ℤ
  datetime : List Char

/-- `answer`, its keys in the order they are set. -/
def Answer.dict (a : Answer) : Json :=
  .obj [(['a', 's', 'd'], .int 3), (ECHO_PAYLOAD, .str a.echoPayload),
    (SECRETS, .arr [.arr (a.token.map .int)]), (DATETIME, .str a.datetime)]

/-- What `recv` returned, and what `getToken()` and `time.strftime` did. -/
structure Request where
  data : List UInt8
  token : List ℤ
  datetime : List Char

/-- The answer to a request whose data decodes. -/
def Request.answer (r : Request) : Answer := ⟨asciiText r.data, r.token, r.datetime⟩

/-- `b"%d\n" % n` -/
def header (n : ℕ) : List UInt8 := ascii (decimal n) ++ [10]

/-- An iteration of `listenToClient`: `serialized` after it (the variable outlives
the iteration, and has no value at first), what it gives to `send` and to
`sendall`, and whether the loop goes on. -/
structure Iteration where
  serialized : Option (List Char)
  header : List UInt8
  payload : List UInt8
  goesOn : Bool

def iteration (serialized : Option (List Char)) (r : Request) : Iteration :=
  if r.data = [] then ⟨serialized, [], [], true⟩
  else
    -- a UnicodeDecodeError is a ValueError: `serialized` keeps its value
    let serialized := match decodeAscii r.data with
      | some text => some (Json.dumps (Answer.dict ⟨text, r.token, r.datetime⟩))
      | none => serialized
    match serialized with
    | none => ⟨none, [], [], false⟩
    | some text =>
      match encodeAscii text with
      | none => ⟨serialized, header text.length, [], false⟩
      | some bytes => ⟨serialized, header text.length, bytes, true⟩

/-- The bytes written for a sequence of requests, when `send` accepts all it is given. -/
def written : Option (List Char) → List Request → List UInt8
  | _, [] => []
  | serialized, r :: rs =>
    let i := iteration serialized r
    i.header ++ i.payload ++ if i.goesOn then written i.serialized rs else []

/-- The frame of an answer. -/
def frame (a : Answer) : List UInt8 := header (Json.dumps a.dict).length ++ ascii (Json.dumps a.dict)

/-! ### The client -/

/-- `b"ping"` -/
def PING : List UInt8 := ascii ['p', 'i', 'n', 'g']

/-- Where `send` is, after the request: in the header loop, in the payload loop
with what `view` holds so far, or at its end. -/
inductive Client
  | header (lenStr : List Char)
  | payload (total : ℕ) (view : List UInt8)
  | returned (deserialized datetime : Json)
  | raised

section Client

-- `json.loads`; nothing for a ValueError
variable (loads : List UInt8 → Option Json)

/-- The most that the next receive call is asked for. -/
def Client.want : Client → ℕ
  | .header _ => 1
  | .payload total view => total - view.length
  | .returned _ _ => 0
  | .raised => 0

/-- After the payload loop. Without a value `deserialized` is unbound. -/
def parse (view : List UInt8) : Client :=
  match loads view with
  | none => .raised
  | some d =>
    match d.getItem SECRETS, d.getItem DATETIME with
    | some _, some t => .returned d t
    | _, _ => .raised

/-- `total = int(len_str)`, `bytearray(total)`, and the first test of the payload loop. -/
def size (lenStr : List Char) : Client :=
  match pyInt lenStr with
  | some (.ofNat total) => if 0 < total then .payload total [] else parse loads []
  | _ => .raised

/-- What `send` does with the result of a receive call, up to the next one. -/
def Client.feed : Client → List UInt8 → Client
  | .header lenStr, x =>
    match decodeAscii x with
    | none => .raised
    | some char => if char = ['\n'] then size loads lenStr else .header (lenStr ++ char)
  | .payload total view, x =>
    if 0 < total - (view ++ x).length then .payload total (view ++ x) else parse loads (view ++ x)
  | c, _ => c

def client : Reader Client UInt8 := ⟨Client.want, Client.feed loads⟩

/-- `m` calls of `send`, the receive calls of each bounded by `fuel`: where they end. -/
def calls (fuel m : ℕ) (k : Pieces UInt8) : Option (List Client × Pieces UInt8) :=
  (client loads).calls (.header []) fuel m k

end Client

/-! ### The server writes frames -/

theorem encodeAscii_dumps (v : Json) : encodeAscii (Json.dumps v) = some (ascii (Json.dumps v)) :=
  if_pos (List.all_eq_true.mpr fun c hc => decide_eq_true (Json.dumps_ascii v c hc))

/-- An iteration on data that decodes writes the frame of its answer. -/
theorem iteration_of_ascii (serialized : Option (List Char)) {r : Request} (h0 : r.data ≠ [])
    (h : r.data.all (· < 128)) :
    iteration serialized r = ⟨some (Json.dumps r.answer.dict), header (Json.dumps r.answer.dict).length,
      ascii (Json.dumps r.answer.dict), true⟩ := by
  have hd : decodeAscii r.data = some (asciiText r.data) := if_pos h
  simp only [iteration, h0, if_false, hd, encodeAscii_dumps]
  rfl

theorem written_eq_frames {rs : List Request} (h : ∀ r ∈ rs, r.data ≠ [] ∧ r.data.all (· < 128))
    (serialized : Option (List Char)) : written serialized rs = rs.flatMap fun r => frame r.answer := by
  induction rs generalizing serialized with
  | nil => rfl
  | cons r rs ih =>
    obtain ⟨h0, hr⟩ := h r List.mem_cons_self
    rw [written, iteration_of_ascii serialized h0 hr, List.flatMap_cons]
    exact congrArg _ (ih (fun r' hr' => h r' (List.mem_cons_of_mem _ hr')) _)

/-! ### The client reads frames -/

section Client

variable {loads : List UInt8 → Option Json}

variable (loads) in
theorem bytewise : (client loads).Bytewise := by
  intro c b x hx hl
  cases c with
  | header lenStr =>
    have : x.length < 1 := hl
    exact absurd (List.length_eq_zero_iff.mp (by omega)) hx
  | payload total view =>
    have hl : x.length < total - view.length := hl
    have hpos := List.length_pos_iff.mpr hx
    -- the first byte does not fill the view
    have h1 : (client loads).feed (.payload total view) [b] = .payload total (view ++ [b]) := by
      refine if_pos ?_
      simp only [List.length_append, List.length_singleton]
      omega
    rw [h1]
    refine ⟨?_, ?_⟩
    · simp [client, Client.feed]
    · simp only [client, Client.want, List.length_append, List.length_singleton]
      omega
  | returned _ _ => cases hl
  | raised => cases hl

theorem want_parse (view : List UInt8) : (parse loads view).want = 0 := by
  unfold parse
  split
  · rfl
  · split <;> rfl

/-- Characters before the newline go to `len_str`. -/
theorem consume_digits {cs : List Char} (h : ∀ c ∈ cs, c.toNat < 128 ∧ c ≠ '\n') (lenStr : List Char)
    (bs : List UInt8) :
    (client loads).consume (.header lenStr) (ascii cs ++ bs) =
      (client loads).consume (.header (lenStr ++ cs)) bs := by
  induction cs generalizing lenStr with
  | nil => simp [ascii]
  | cons c cs ih =>
    obtain ⟨hlt, hne⟩ := h c List.mem_cons_self
    have hdec : decodeAscii (ascii [c]) = some [c] := decodeAscii_ascii (by simpa using hlt)
    have hfeed : (client loads).feed (.header lenStr) (ascii [c]) = .header (lenStr ++ [c]) := by
      simp [client, Client.feed, hdec, hne]
    have hcons : ascii (c :: cs) ++ bs = c.toNat.toUInt8 :: (ascii cs ++ bs) := rfl
    rw [hcons, Reader.consume_cons _ (by simp [client, Client.want])]
    refine (congrArg (fun c => (client loads).consume c (ascii cs ++ bs)) hfeed).trans ?_
    rw [ih fun d hd => h d (List.mem_cons_of_mem _ hd), List.append_assoc, List.singleton_append]

/-- The header sets the size. -/
theorem consume_header (n : ℕ) (bs : List UInt8) :
    (client loads).consume (.header []) (header n ++ bs) =
      (client loads).consume (if 0 < n then .payload n [] else parse loads []) bs := by
  have hd : ∀ c ∈ decimal n, c.toNat < 128 ∧ c ≠ '\n' := by
    intro c hc
    refine ⟨Json.isAscii_decimal n c hc, ?_⟩
    rintro rfl
    exact absurd (isDigit_decimal n _ hc) (by decide)
  rw [header, List.append_assoc, consume_digits hd, List.nil_append, List.singleton_append,
    Reader.consume_cons _ (by simp [client, Client.want])]
  refine congrArg (fun c => (client loads).consume c bs) ?_
  have hnl : decodeAscii [10] = some ['\n'] := by decide
  simp [client, Client.feed, hnl, size, pyInt_decimal]

/-- The payload fills the view and is parsed. -/
theorem consume_payload (bs : List UInt8) :
    (client loads).consume (if 0 < bs.length then .payload bs.length [] else parse loads []) bs =
      some (parse loads bs, []) := by
  by_cases h0 : bs = []
  · subst h0
    exact Reader.consume_of_want_zero _ (want_parse []) []
  · have hpos := List.length_pos_iff.mpr h0
    have hfeed : (client loads).feed (.payload bs.length []) bs = parse loads bs := by
      simp [client, Client.feed]
    have hlen : bs.length ≤ (client loads).want (.payload bs.length []) := by simp [client, Client.want]
    have h := Reader.consume_feed (bytewise loads) h0 hlen []
    have hwant : (client loads).want (parse loads bs) = 0 := want_parse bs
    rw [List.append_nil, hfeed, Reader.consume_of_want_zero _ hwant] at h
    rw [if_pos hpos, h]

/-- A call takes the frame of an answer that parses, and nothing else. -/
theorem consume_frame {a : Answer} (h : loads (ascii (Json.dumps a.dict)) = some a.dict) :
    (client loads).consume (.header []) (frame a) = some (.returned a.dict (.str a.datetime), []) := by
  have hlen : (Json.dumps a.dict).length = (ascii (Json.dumps a.dict)).length := by simp [ascii]
  have hparse : parse loads (ascii (Json.dumps a.dict)) = .returned a.dict (.str a.datetime) := by
    rw [parse, h]
    rfl
  rw [frame, consume_header, hlen, consume_payload, hparse]

/-- **Decoding undoes encoding under any chunking.** On the bytes the server writes
for some requests, followed by anything and cut in any way, `m` calls of `send`
return the first `m` answers and stop at the frame after them; each receive call
they make takes at least one byte. `loads` inverts `dumps` on the answers. -/
theorem calls_written (rs : List Request) (hdata : ∀ r ∈ rs, r.data ≠ [] ∧ r.data.all (· < 128))
    (hloads : ∀ r ∈ rs, loads (ascii (Json.dumps r.answer.dict)) = some r.answer.dict)
    {rest : List UInt8} {k : Pieces UInt8} (hk : k.bytes = written none rs ++ rest)
    {m : ℕ} (hm : m ≤ rs.length) {fuel : ℕ} (hf : k.bytes.length ≤ fuel) :
    ∃ k', calls loads fuel m k =
        some ((rs.take m).map fun r => .returned r.answer.dict (.str r.datetime), k') ∧
      k'.bytes = written none (rs.drop m) ++ rest := by
  rw [written_eq_frames hdata] at hk
  rw [written_eq_frames fun r hr => hdata r (List.mem_of_mem_drop hr)]
  exact Reader.calls_frames (bytewise loads) (fun r hr => consume_frame (hloads r hr)) hk hm hf

end Client

/-- `json.loads` on the texts of some answers. -/
def loadsOf (as : List Answer) (text : List UInt8) : Option Json :=
  (as.find? fun a => ascii (Json.dumps a.dict) == text).map Answer.dict

def ping : Request :=
  ⟨PING, [7, 150, 12, 99, 1, 200, 3, 41, 8],
    ['2', '0', '2', '0', '-', '0', '5', '-', '0', '1', ' ', '1', '0', ':', '0', '5', ':', '1', '5']⟩

def hello : Request :=
  ⟨ascii ['h', 'e', 'l', 'l', 'o'], [5, 5, 17, 180, 64, 32, 2, 90, 111],
    ['2', '0', '2', '0', '-', '0', '6', '-', '0', '1', ' ', '1', '0', ':', '0', '6', ':', '1', '6']⟩

/-- Two answers, cut inside the first header and inside the second payload. -/
def cutStream : Pieces UInt8 where
  pieces := [(written none [ping, hello]).take 1, ((written none [ping, hello]).drop 1).take 200,
    (written none [ping, hello]).drop 201]
  nonempty := by decide +kernel

/-- The theorem on the cut stream. -/
theorem calls_written_cut : ∃ k', calls (loadsOf [ping.answer, hello.answer]) 400 2 cutStream =
    some ([.returned ping.answer.dict (.str ping.datetime), .returned hello.answer.dict (.str hello.datetime)],
      k') ∧ k'.bytes = [] :=
  calls_written [ping, hello] (by decide) (by
    intro r hr
    rcases List.mem_pair.mp hr with rfl | rfl <;> rfl) (by decide +kernel) (by decide) (by decide +kernel)

end Wire
end Netacademia
