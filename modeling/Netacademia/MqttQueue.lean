/-
# The message queue of the MQTT client

`examples/esp_mqtt_proj/mqtt`: the ring buffer (ringbuf.c), the frames in it
(proto.c), the queue (queue.c), and the loop of mqtt.c in which `MQTT_Publish`,
`MQTT_Subscribe`, `MQTT_UnSubscribe` and `MQTT_Ping` queue a message: while it does
not fit, they take the oldest message out and drop it.

A message that does not fit is nevertheless written, up to the end of the room, and
what was written stays in the ring. The next `0x7E` makes the reader forget it, so it
is never returned; it is room lost, and the ring is a `Lib.Store` (`Holds`).

* `fifo`: in every run what `QUEUE_Gets` returns are messages that were accepted, in
  their order, each at most once; without the dropping loop none is left out.
* `queueing_outcome`: what that loop comes to. It ends, it succeeds exactly if the
  message fits or one of the messages in front of it frees enough, and when it fails
  the whole queue is lost.
-/
import Netacademia.Lib.Machine
import Netacademia.Lib.Ring
import Netacademia.Lib.Store

namespace Netacademia
namespace MqttQueue

open Lib

/-! ### ringbuf.c -/

structure RingBuf where
  /-- The storage, from `p_o` on. -/
  buf : List UInt8
  /-- `p_r` and `p_w`, as offsets from `p_o`. -/
  pR : ℕ
  pW : ℕ
  fillCnt : ℕ
  size : ℕ
  deriving DecidableEq, Repr

/-- `none` is returned as -1. -/
def ringbufInit (buf : List UInt8) (size : ℕ) : Option RingBuf :=
  if size < 2 then none else some ⟨buf, 0, 0, 0, size⟩

def ringbufPut (r : RingBuf) (c : UInt8) : Option RingBuf :=
  if r.size ≤ r.fillCnt then none
  else some { r with
    fillCnt := r.fillCnt + 1
    buf := r.buf.set r.pW c
    pW := if r.size ≤ r.pW + 1 then 0 else r.pW + 1 }

def ringbufGet (r : RingBuf) : Option (UInt8 × RingBuf) :=
  if r.fillCnt = 0 then none
  else some (r.buf.getD r.pR 0, { r with
    fillCnt := r.fillCnt - 1
    pR := if r.size ≤ r.pR + 1 then 0 else r.pR + 1 })

/-- The bytes in the ring, oldest first. -/
def RingBuf.contents (r : RingBuf) : List UInt8 := Ring.contents r.buf r.pR r.fillCnt

def RingBuf.room (r : RingBuf) : ℕ := r.size - r.fillCnt

structure RingBuf.Inv (r : RingBuf) : Prop where
  length_buf : r.buf.length = r.size
  fillCnt_le : r.fillCnt ≤ r.size
  pR_lt : r.pR < r.size
  pW_eq : r.pW = (r.pR + r.fillCnt) % r.size

theorem RingBuf.Inv.length_contents {r : RingBuf} (h : r.Inv) : r.contents.length = r.fillCnt :=
  Ring.length_contents (by rw [h.length_buf]; exact h.fillCnt_le) _

/-- What an operation leaves: a ring of the same size that holds `bytes`. -/
structure RingBuf.Is (r : RingBuf) (size : ℕ) (bytes : List UInt8) : Prop where
  inv : r.Inv
  size_eq : r.size = size
  contents_eq : r.contents = bytes

theorem RingBuf.Inv.is {r : RingBuf} (h : r.Inv) : r.Is r.size r.contents := ⟨h, rfl, rfl⟩

theorem RingBuf.Is.fillCnt_eq {r : RingBuf} {size : ℕ} {bytes : List UInt8} (h : r.Is size bytes) :
    r.fillCnt = bytes.length := by
  rw [← h.contents_eq, h.inv.length_contents]

theorem RingBuf.Is.length_le {r : RingBuf} {size : ℕ} {bytes : List UInt8} (h : r.Is size bytes) :
    bytes.length ≤ size := by
  rw [← h.fillCnt_eq, ← h.size_eq]
  exact h.inv.fillCnt_le

/-- A byte is put behind the others, if there is room. -/
theorem ringbufPut_is {r : RingBuf} {size : ℕ} {bytes : List UInt8} (h : r.Is size bytes) (c : UInt8)
    (hroom : bytes.length < size) : ∃ r', ringbufPut r c = some r' ∧ r'.Is size (bytes ++ [c]) := by
  obtain ⟨hinv, hsize, hbytes⟩ := h
  have hfill : r.fillCnt < r.size := by
    rw [← hinv.length_contents, hbytes, hsize]
    exact hroom
  have hpW : r.pW < r.size := by
    rw [hinv.pW_eq]
    exact Nat.mod_lt _ (by omega)
  refine ⟨_, if_neg (by omega), ⟨⟨?_, hfill, hinv.pR_lt, ?_⟩, hsize, ?_⟩⟩
  · exact List.length_set.trans hinv.length_buf
  · rw [Ring.succ_wrap hpW, hinv.pW_eq, Nat.mod_add_mod]
    rfl
  · have hset := Ring.contents_set r.buf r.pR (by rw [hinv.length_buf]; exact hfill) c
    rw [hinv.length_buf, ← hinv.pW_eq] at hset
    exact hset.trans (congrArg (· ++ [c]) hbytes)

theorem ringbufPut_full {r : RingBuf} {size : ℕ} {bytes : List UInt8} (h : r.Is size bytes) (c : UInt8)
    (hroom : size ≤ bytes.length) : ringbufPut r c = none := by
  refine if_pos ?_
  rw [h.fillCnt_eq, h.size_eq]
  exact hroom

/-- The oldest byte is taken. -/
theorem ringbufGet_is {r : RingBuf} {size : ℕ} {b : UInt8} {bytes : List UInt8} (h : r.Is size (b :: bytes)) :
    ∃ r', ringbufGet r = some (b, r') ∧ r'.Is size bytes := by
  have hfill := h.fillCnt_eq
  obtain ⟨hinv, hsize, hbytes⟩ := h
  rw [List.length_cons] at hfill
  have hle := hinv.fillCnt_le
  have hout : r.pR < r.buf.length := by rw [hinv.length_buf]; exact hinv.pR_lt
  have hlen : bytes.length + 1 ≤ r.buf.length := by rw [hinv.length_buf]; omega
  obtain ⟨b', hb', hhead⟩ := Ring.contents_head hout hlen
  have hcons : b' :: Ring.contents r.buf (r.pR + 1) bytes.length = b :: bytes := by
    rw [← hhead, ← hbytes, RingBuf.contents, hfill]
  obtain ⟨rfl, hrest⟩ := List.cons.inj hcons
  have hget : ringbufGet r = some (b', { r with
      fillCnt := r.fillCnt - 1, pR := if r.size ≤ r.pR + 1 then 0 else r.pR + 1 }) := by
    unfold ringbufGet
    rw [if_neg (by omega), List.getD_eq_getElem?_getD, hb', Option.getD_some]
  refine ⟨_, hget, ⟨⟨hinv.length_buf, ?_, ?_, ?_⟩, hsize, ?_⟩⟩
  · exact Nat.le_trans (Nat.sub_le ..) hle
  · rw [Ring.succ_wrap hinv.pR_lt]
    exact Nat.mod_lt _ (Nat.lt_of_le_of_lt (Nat.zero_le _) hinv.pR_lt)
  · rw [Ring.succ_wrap hinv.pR_lt, Nat.mod_add_mod, hinv.pW_eq, hfill, Nat.add_sub_cancel, Nat.add_assoc,
      Nat.add_comm 1]
  · rw [Ring.succ_wrap hinv.pR_lt, RingBuf.contents, hfill, Nat.add_sub_cancel]
    rw [← hinv.length_buf, Ring.contents_mod]
    exact hrest

theorem ringbufInit_is {size : ℕ} (h : 2 ≤ size) :
    ∃ r, ringbufInit (List.replicate size 0) size = some r ∧ r.Is size [] := by
  refine ⟨_, if_neg (by omega), ⟨⟨List.length_replicate, Nat.zero_le _, ?_, ?_⟩, rfl, rfl⟩⟩
  · exact Nat.lt_of_lt_of_le Nat.zero_lt_two h
  · rw [Nat.add_zero, Nat.zero_mod]

/-! ### proto.c: writing -/

/-- The bytes of a message that are escaped. -/
def special (b : UInt8) : Prop := b = 0x7D ∨ b = 0x7E ∨ b = 0x7F

instance (b : UInt8) : Decidable (special b) := inferInstanceAs (Decidable (_ ∨ _))

/-- The loop of `PROTO_AddRb`, and what follows it; `i` counts the bytes written. -/
def protoAddRbLoop : List UInt8 → UInt16 → RingBuf → ℤ × RingBuf
  | [], i, rb =>
    match ringbufPut rb 0x7F with
    | none => (-1, rb)
    | some rb => (i.toInt16.toInt, rb)
  | b :: packet, i, rb =>
    if special b then
      match ringbufPut rb 0x7D with
      | none => (-1, rb)
      | some rb =>
        match ringbufPut rb (b ^^^ 0x20) with
        | none => (-1, rb)
        | some rb => protoAddRbLoop packet (i + 2) rb
    else
      match ringbufPut rb b with
      | none => (-1, rb)
      | some rb => protoAddRbLoop packet (i + 1) rb

/-- With the number returned, the ring buffer. -/
def protoAddRb (rb : RingBuf) (packet : List UInt8) : ℤ × RingBuf :=
  match ringbufPut rb 0x7E with
  | none => (-1, rb)
  | some rb => protoAddRbLoop packet 2 rb

/-- A message in the ring, without the bytes at its ends. -/
def stuff (packet : List UInt8) : List UInt8 :=
  packet.flatMap fun b => if special b then [0x7D, b ^^^ 0x20] else [b]

def frame (packet : List UInt8) : List UInt8 := 0x7E :: (stuff packet ++ [0x7F])

theorem stuff_cons (b : UInt8) (packet : List UInt8) :
    stuff (b :: packet) = (if special b then [0x7D, b ^^^ 0x20] else [b]) ++ stuff packet := rfl

theorem stuff_special {b : UInt8} (h : special b) (packet : List UInt8) :
    stuff (b :: packet) = 0x7D :: (b ^^^ 0x20) :: stuff packet := by
  rw [stuff_cons, if_pos h]
  rfl

theorem stuff_plain {b : UInt8} (h : ¬ special b) (packet : List UInt8) : stuff (b :: packet) = b :: stuff packet := by
  rw [stuff_cons, if_neg h]
  rfl

/-- An escaped byte is plain, and gives the byte back. -/
theorem special_xor {b : UInt8} (h : special b) : ¬ special (b ^^^ 0x20) ∧ (b ^^^ 0x20) ^^^ 0x20 = b := by
  obtain rfl | rfl | rfl := h <;> decide

theorem not_mem_stuff (packet : List UInt8) : 0x7F ∉ stuff packet := by
  unfold stuff
  intro h
  obtain ⟨b, -, hb⟩ := List.mem_flatMap.mp h
  by_cases hs : special b
  · rw [if_pos hs] at hb
    obtain rfl | rfl | rfl := hs <;> revert hb <;> decide
  · rw [if_neg hs, List.mem_singleton] at hb
    exact hs (.inr (.inr hb.symm))

theorem length_frame (packet : List UInt8) : (frame packet).length = (stuff packet).length + 2 := by
  rw [frame, List.length_cons, List.length_append, List.length_singleton]

/-- A part of a frame does not end it. -/
theorem not_mem_take_frame {packet : List UInt8} {n : ℕ} (h : n < (frame packet).length) :
    0x7F ∉ (frame packet).take n := by
  have hcut : (frame packet).take n = ((0x7E : UInt8) :: stuff packet).take n := by
    rw [length_frame] at h
    rw [frame, ← List.cons_append, List.take_append_of_le_length]
    rw [List.length_cons]
    omega
  rw [hcut]
  intro hm
  obtain hm | hm := List.mem_cons.mp (List.mem_of_mem_take hm)
  · exact absurd hm (by decide)
  · exact not_mem_stuff packet hm

/-- What `protoAddRb` returns and leaves when it has `bytes` to write behind those in
the ring: all of them, or as many as there is room for. -/
structure Wrote (size : ℕ) (before bytes : List UInt8) (ret : ℤ) (out : ℤ × RingBuf) : Prop where
  ring : out.2.Is size (before ++ bytes.take (size - before.length))
  ret_eq : out.1 = if before.length + bytes.length ≤ size then ret else -1

theorem wrote_full {r : RingBuf} {size : ℕ} {before : List UInt8} (h : r.Is size before)
    (hfull : size ≤ before.length) (b : UInt8) (bytes : List UInt8) (ret : ℤ) :
    Wrote size before (b :: bytes) ret (-1, r) := by
  refine ⟨?_, ?_⟩
  · rw [Nat.sub_eq_zero_of_le hfull, List.take_zero, List.append_nil]
    exact h
  · rw [List.length_cons, if_neg (by omega)]

/-- After the first byte is written, the rest. -/
theorem Wrote.cons {size : ℕ} {before bytes : List UInt8} {b : UInt8} {ret : ℤ} {out : ℤ × RingBuf}
    (hroom : before.length < size) (h : Wrote size (before ++ [b]) bytes ret out) :
    Wrote size before (b :: bytes) ret out := by
  have hlen : (before ++ [b]).length = before.length + 1 := List.length_append
  obtain ⟨hring, hret⟩ := h
  rw [hlen] at hring hret
  refine ⟨?_, ?_⟩
  · have hsub : size - before.length = size - (before.length + 1) + 1 := by omega
    rw [hsub, List.take_succ_cons]
    rw [List.append_assoc, List.singleton_append] at hring
    exact hring
  · rw [hret, List.length_cons, Nat.add_comm bytes.length, ← Nat.add_assoc]

theorem count_add (i : UInt16) (k n : ℕ) : i + UInt16.ofNat k + UInt16.ofNat n = i + UInt16.ofNat (n + k) := by
  rw [UInt16.add_assoc, UInt16.ofNat_add, UInt16.add_comm (UInt16.ofNat k)]

theorem protoAddRbLoop_wrote (packet : List UInt8) {r : RingBuf} {size : ℕ} {before : List UInt8}
    (h : r.Is size before) (i : UInt16) :
    Wrote size before (stuff packet ++ [0x7F]) (i + UInt16.ofNat (stuff packet).length).toInt16.toInt
      (protoAddRbLoop packet i r) := by
  induction packet generalizing r before i with
  | nil =>
    unfold protoAddRbLoop
    by_cases hroom : before.length < size
    · obtain ⟨r', hput, hr'⟩ := ringbufPut_is h 0x7F hroom
      rw [hput]
      refine Wrote.cons hroom ⟨?_, ?_⟩
      · rw [List.take_nil, List.append_nil]
        exact hr'
      · rw [List.length_nil, Nat.add_zero, if_pos hr'.length_le]
        simp [stuff]
    · rw [ringbufPut_full h _ (Nat.le_of_not_lt hroom)]
      exact wrote_full h (Nat.le_of_not_lt hroom) ..
  | cons b packet ih =>
    unfold protoAddRbLoop
    by_cases hs : special b
    · rw [if_pos hs, stuff_special hs]
      by_cases hroom : before.length < size
      · obtain ⟨r', hput, hr'⟩ := ringbufPut_is h 0x7D hroom
        rw [hput]
        refine Wrote.cons hroom ?_
        simp only
        by_cases hroom' : (before ++ [0x7D]).length < size
        · obtain ⟨r'', hput', hr''⟩ := ringbufPut_is hr' (b ^^^ 0x20) hroom'
          rw [hput']
          refine Wrote.cons hroom' ?_
          have hih := ih hr'' (i + 2)
          rw [show (2 : UInt16) = UInt16.ofNat 2 from rfl, count_add] at hih
          exact hih
        · rw [ringbufPut_full hr' _ (Nat.le_of_not_lt hroom')]
          exact wrote_full hr' (Nat.le_of_not_lt hroom') ..
      · rw [ringbufPut_full h _ (Nat.le_of_not_lt hroom)]
        exact wrote_full h (Nat.le_of_not_lt hroom) ..
    · rw [if_neg hs, stuff_plain hs]
      by_cases hroom : before.length < size
      · obtain ⟨r', hput, hr'⟩ := ringbufPut_is h b hroom
        rw [hput]
        refine Wrote.cons hroom ?_
        have hih := ih hr' (i + 1)
        rw [show (1 : UInt16) = UInt16.ofNat 1 from rfl, count_add] at hih
        exact hih
      · rw [ringbufPut_full h _ (Nat.le_of_not_lt hroom)]
        exact wrote_full h (Nat.le_of_not_lt hroom) ..

/-- **A message is written as its frame**, or as much of it as there is room for. -/
theorem protoAddRb_wrote {r : RingBuf} {size : ℕ} {before : List UInt8} (h : r.Is size before)
    (packet : List UInt8) :
    Wrote size before (frame packet) (UInt16.ofNat (frame packet).length).toInt16.toInt (protoAddRb r packet) := by
  unfold protoAddRb
  by_cases hroom : before.length < size
  · obtain ⟨r', hput, hr'⟩ := ringbufPut_is h 0x7E hroom
    rw [hput]
    have hloop := protoAddRbLoop_wrote packet hr' 2
    have hi : 2 + UInt16.ofNat (stuff packet).length = UInt16.ofNat (frame packet).length := by
      rw [length_frame, UInt16.ofNat_add, UInt16.add_comm]
      rfl
    rw [hi] at hloop
    exact Wrote.cons hroom hloop
  · rw [ringbufPut_full h _ (Nat.le_of_not_lt hroom)]
    exact wrote_full h (Nat.le_of_not_lt hroom) ..

/-- The number of bytes returned is not taken for -1. -/
theorem ret_ne_neg_one {n : ℕ} (h : n < 65535) : (UInt16.ofNat n).toInt16.toInt ≠ -1 := by
  intro hc
  have hbv : ((BitVec.ofNat 16 n).toInt : ℤ) = -1 := hc
  rw [BitVec.toInt_ofNat', Int.bmod_def] at hbv
  omega

/-! ### proto.c: reading -/

structure ProtoParser where
  buf : List UInt8
  bufSize : ℕ
  dataLen : ℕ
  isEsc : UInt8
  isBegin : UInt8
  deriving DecidableEq, Repr

/-- `isBegin` is not set: it is what the variable of the caller holds. -/
def protoInit (buf : List UInt8) (bufSize : ℕ) (isBegin : UInt8) : ProtoParser := ⟨buf, bufSize, 0, 0, isBegin⟩

/-- With the parser, what is returned; there is no callback. -/
def protoParseByte (parser : ProtoParser) (value : UInt8) : ProtoParser × ℤ :=
  if value = 0x7D then ({ parser with isEsc := 1 }, -1)
  else if value = 0x7E then ({ parser with dataLen := 0, isEsc := 0, isBegin := 1 }, -1)
  else if value = 0x7F then ({ parser with isBegin := 0 }, 0)
  else if parser.isBegin = 0 then (parser, -1)
  else
    let value' := if parser.isEsc ≠ 0 then value ^^^ 0x20 else value
    if parser.dataLen < parser.bufSize then
      ({ parser with isEsc := 0, buf := parser.buf.set parser.dataLen value', dataLen := parser.dataLen + 1 }, -1)
    else ({ parser with isEsc := 0 }, -1)

/-- The loop of `PROTO_ParseRb`; it takes a byte each time, so it ends after `fillCnt`
of them. With `*len` there is returned the buffer written to; `none` is -1. -/
def protoParseRbLoop : ℕ → RingBuf → ProtoParser → Option ℕ × List UInt8 × RingBuf
  | 0, rb, proto => (none, proto.buf, rb)
  | n + 1, rb, proto =>
    match ringbufGet rb with
    | none => (none, proto.buf, rb)
    | some (c, rb) =>
      let res := protoParseByte proto c
      if res.2 = 0 then (some res.1.dataLen, res.1.buf, rb) else protoParseRbLoop n rb res.1

def protoParseRb (rb : RingBuf) (bufOut : List UInt8) (maxBufLen : ℕ) (isBegin : UInt8) :
    Option ℕ × List UInt8 × RingBuf :=
  protoParseRbLoop rb.fillCnt rb (protoInit bufOut maxBufLen isBegin)

/-- The parser after bytes that do not end a message. -/
def feed (proto : ProtoParser) (bytes : List UInt8) : ProtoParser :=
  bytes.foldl (fun proto c => (protoParseByte proto c).1) proto

/-- What the parser has read of a message. -/
def ProtoParser.data (proto : ProtoParser) : List UInt8 := proto.buf.take proto.dataLen

@[simp] theorem feed_cons (proto : ProtoParser) (c : UInt8) (bytes : List UInt8) :
    feed proto (c :: bytes) = feed (protoParseByte proto c).1 bytes := rfl

theorem feed_append (proto : ProtoParser) (bytes bytes' : List UInt8) :
    feed proto (bytes ++ bytes') = feed (feed proto bytes) bytes' := List.foldl_append

/-- Only `0x7F` ends a message. -/
theorem protoParseByte_ret (proto : ProtoParser) (c : UInt8) : (protoParseByte proto c).2 = 0 ↔ c = 0x7F := by
  unfold protoParseByte
  constructor
  · intro h
    by_contra hc
    revert h
    rw [if_neg hc]
    split_ifs <;> simp
  · rintro rfl
    rfl

/-- Inside a message, with nothing escaped; the buffer is as long as it is said to be. -/
structure ProtoParser.Reading (proto : ProtoParser) : Prop where
  isBegin : proto.isBegin ≠ 0
  isEsc : proto.isEsc = 0
  dataLen_le : proto.dataLen ≤ proto.bufSize
  bufSize_le : proto.bufSize ≤ proto.buf.length

theorem ProtoParser.Reading.length_data {proto : ProtoParser} (h : proto.Reading) :
    proto.data.length = proto.dataLen :=
  List.length_take_of_le (h.dataLen_le.trans h.bufSize_le)

/-- A byte stored, escaped or not, is behind those read, if there is room in the buffer. -/
theorem protoParseByte_store {proto : ProtoParser} {c : UInt8} (hb : proto.isBegin ≠ 0)
    (hle : proto.dataLen ≤ proto.bufSize) (hlen : proto.bufSize ≤ proto.buf.length) (hc : ¬ special c) :
    (protoParseByte proto c).1.Reading ∧ (protoParseByte proto c).1.bufSize = proto.bufSize ∧
      (protoParseByte proto c).1.data =
        (proto.data ++ [if proto.isEsc ≠ 0 then c ^^^ 0x20 else c]).take proto.bufSize := by
  have hdata : proto.data.length = proto.dataLen := List.length_take_of_le (hle.trans hlen)
  unfold protoParseByte
  rw [if_neg fun he => hc (.inl he), if_neg fun he => hc (.inr (.inl he)), if_neg fun he => hc (.inr (.inr he)),
    if_neg hb]
  by_cases hroom : proto.dataLen < proto.bufSize
  · simp only [if_pos hroom]
    refine ⟨⟨hb, rfl, hroom, ?_⟩, trivial, ?_⟩
    · exact hlen.trans (Nat.le_of_eq List.length_set.symm)
    · unfold ProtoParser.data
      have hlt : proto.dataLen < proto.buf.length := by omega
      rw [List.take_succ_eq_append_getElem (by rwa [List.length_set]), List.getElem_set_self,
        List.take_set_of_le (Nat.le_refl _)]
      refine (List.take_of_length_le ?_).symm
      rw [List.length_append, List.length_singleton, List.length_take_of_le (hle.trans hlen)]
      exact hroom
  · simp only [if_neg hroom]
    refine ⟨⟨hb, rfl, hle, hlen⟩, trivial, ?_⟩
    rw [List.take_append_of_le_length (by omega), List.take_of_length_le (by omega)]
    rfl

theorem take_take_append (n : ℕ) (bytes bytes' : List UInt8) :
    (bytes.take n ++ bytes').take n = (bytes ++ bytes').take n := by
  have hsub : n - min n bytes.length = n - bytes.length := by omega
  rw [List.take_append, List.take_append, List.take_take, Nat.min_self, List.length_take, hsub]

/-- The parser reads back what was stuffed, as far as the buffer goes. -/
theorem feed_stuff (packet : List UInt8) {proto : ProtoParser} (h : proto.Reading) :
    (feed proto (stuff packet)).data = (proto.data ++ packet).take proto.bufSize := by
  induction packet generalizing proto with
  | nil =>
    refine (List.take_of_length_le ?_).symm.trans (by rw [List.append_nil]; rfl)
    exact Nat.le_trans (Nat.le_of_eq h.length_data) h.dataLen_le
  | cons b packet ih =>
    have hcut (x : List UInt8) :
        ((proto.data ++ [b]).take proto.bufSize ++ x).take proto.bufSize =
          (proto.data ++ b :: x).take proto.bufSize := by
      rw [take_take_append, List.append_assoc, List.singleton_append]
    by_cases hs : special b
    · obtain ⟨hplain, hback⟩ := special_xor hs
      rw [stuff_special hs, feed_cons, feed_cons]
      have hesc : { proto with isEsc := 1 }.isBegin ≠ 0 := h.isBegin
      obtain ⟨hread, hsize, hdata⟩ := protoParseByte_store hesc h.dataLen_le h.bufSize_le hplain
      rw [show (protoParseByte proto 0x7D).1 = { proto with isEsc := 1 } from rfl, ih hread, hsize, hdata]
      rw [if_pos (show (1 : UInt8) ≠ 0 by decide), hback]
      exact hcut packet
    · rw [stuff_plain hs, feed_cons]
      obtain ⟨hread, hsize, hdata⟩ := protoParseByte_store h.isBegin h.dataLen_le h.bufSize_le hs
      rw [ih hread, hsize, hdata, h.isEsc, if_neg fun he => he rfl]
      exact hcut packet

theorem feed_buf (bytes : List UInt8) (proto : ProtoParser) :
    (feed proto bytes).bufSize = proto.bufSize ∧ (feed proto bytes).buf.length = proto.buf.length := by
  induction bytes generalizing proto with
  | nil => exact ⟨rfl, rfl⟩
  | cons c bytes ih =>
    obtain ⟨hsize, hlen⟩ := ih (protoParseByte proto c).1
    rw [feed_cons, hsize, hlen]
    unfold protoParseByte
    split_ifs <;> simp

/-- A message read from its frame, whatever stood before the frame. -/
theorem feed_frame (proto : ProtoParser) (junk packet : List UInt8) (hlen : proto.bufSize ≤ proto.buf.length) :
    (feed proto (junk ++ 0x7E :: stuff packet)).data = packet.take proto.bufSize := by
  obtain ⟨hsize, hbuf⟩ := feed_buf junk proto
  have hread : (protoParseByte (feed proto junk) 0x7E).1.Reading :=
    ⟨show (1 : UInt8) ≠ 0 by decide, rfl, Nat.zero_le _, by rw [← hsize, ← hbuf] at hlen; exact hlen⟩
  rw [feed_append, feed_cons, feed_stuff packet hread]
  exact congrArg (packet.take ·) hsize

/-- What was read, at the end of a message. -/
theorem protoParseRbLoop_stop {size : ℕ} (pre : List UInt8) {rest : List UInt8} {r : RingBuf} (proto : ProtoParser)
    (h : r.Is size (pre ++ 0x7F :: rest)) (hpre : 0x7F ∉ pre) {n : ℕ} (hn : pre.length < n) :
    ∃ r', protoParseRbLoop n r proto = (some (feed proto pre).dataLen, (feed proto pre).buf, r') ∧
      r'.Is size rest := by
  obtain ⟨n, rfl⟩ := Nat.exists_eq_add_of_lt hn
  induction pre generalizing r proto with
  | nil =>
    obtain ⟨r', hget, hr'⟩ := ringbufGet_is h
    refine ⟨r', ?_, hr'⟩
    rw [List.length_nil, protoParseRbLoop, hget]
    rfl
  | cons c pre ih =>
    obtain ⟨r₁, hget, hr₁⟩ := ringbufGet_is h
    have hc : (protoParseByte proto c).2 ≠ 0 := fun he =>
      hpre (List.mem_cons.mpr (.inl ((protoParseByte_ret proto c).mp he).symm))
    obtain ⟨r', hloop, hr'⟩ := ih (protoParseByte proto c).1 hr₁ (fun hm => hpre (List.mem_cons_of_mem _ hm))
      (by omega)
    refine ⟨r', ?_, hr'⟩
    rw [protoParseRbLoop, hget]
    simp only [if_neg hc]
    rw [List.length_cons, Nat.add_right_comm pre.length 1 n]
    exact hloop

/-- Without the end of a message, everything is read and forgotten. -/
theorem protoParseRbLoop_torn {size : ℕ} {bytes : List UInt8} {r : RingBuf} (proto : ProtoParser) (h : r.Is size bytes)
    (hno : 0x7F ∉ bytes) : ∃ r', protoParseRbLoop bytes.length r proto = (none, (feed proto bytes).buf, r') ∧
      r'.Is size [] := by
  induction bytes generalizing r proto with
  | nil => exact ⟨r, rfl, h⟩
  | cons c bytes ih =>
    obtain ⟨r₁, hget, hr₁⟩ := ringbufGet_is h
    have hc : (protoParseByte proto c).2 ≠ 0 := fun he =>
      hno (List.mem_cons.mpr (.inl ((protoParseByte_ret proto c).mp he).symm))
    obtain ⟨r', hloop, hr'⟩ := ih (protoParseByte proto c).1 hr₁ fun hm => hno (List.mem_cons_of_mem _ hm)
    refine ⟨r', ?_, hr'⟩
    rw [List.length_cons, protoParseRbLoop, hget]
    simp only [if_neg hc]
    exact hloop

/-! ### queue.c -/

def QUEUE_BUFFER_SIZE : ℕ := 2048

def MQTT_BUF_SIZE : ℕ := 1024

/-- The memory comes zeroed; if the size is too small, the ring stays as it was. -/
def queueInit (queue : RingBuf) (bufferSize : ℕ) : RingBuf :=
  (ringbufInit (List.replicate bufferSize 0) bufferSize).getD queue

def queuePuts (queue : RingBuf) (buffer : List UInt8) : ℤ × RingBuf := protoAddRb queue buffer

def queueGets (queue : RingBuf) (buffer : List UInt8) (maxLen : ℕ) (isBegin : UInt8) :
    Option ℕ × List UInt8 × RingBuf :=
  protoParseRb queue buffer maxLen isBegin

def queueIsEmpty (queue : RingBuf) : Bool := queue.fillCnt = 0

/-- The room a message takes. -/
def frameSize (packet : List UInt8) : ℕ := (frame packet).length

/-- The ring holds the messages of a store. -/
structure Holds (size : ℕ) (r : RingBuf) (s : Store (List UInt8)) : Prop where
  ring : r.Is size r.contents
  layout : Store.Layout 0x7F frame s.blocks s.torn r.contents

theorem RingBuf.Is.holds {r : RingBuf} {size : ℕ} {bytes : List UInt8} (h : r.Is size bytes)
    {s : Store (List UInt8)} (hl : Store.Layout 0x7F frame s.blocks s.torn bytes) : Holds size r s := by
  rw [← h.contents_eq] at hl
  exact ⟨⟨h.inv, h.size_eq, rfl⟩, hl⟩

theorem Holds.used_eq {size : ℕ} {r : RingBuf} {s : Store (List UInt8)} (h : Holds size r s) :
    s.used frameSize = r.contents.length := h.layout.length_eq.symm

theorem Holds.used_le {size : ℕ} {r : RingBuf} {s : Store (List UInt8)} (h : Holds size r s) :
    s.used frameSize ≤ size := by
  rw [h.used_eq]
  exact h.ring.length_le

theorem holds_init {size : ℕ} (queue : RingBuf) (h : 2 ≤ size) : Holds size (queueInit queue size) Store.empty := by
  obtain ⟨r, hinit, hr⟩ := ringbufInit_is h
  rw [queueInit, hinit]
  exact hr.holds ⟨rfl, List.not_mem_nil⟩

theorem Holds.isEmpty_iff {size : ℕ} {r : RingBuf} {s : Store (List UInt8)} (h : Holds size r s) :
    queueIsEmpty r ↔ s.used frameSize = 0 := by
  rw [h.used_eq, queueIsEmpty, h.ring.fillCnt_eq, decide_eq_true_iff]

/-- **A put of the queue is a put of the store.** -/
theorem queuePuts_holds {size : ℕ} (hsize : size < 65535) {r : RingBuf} {s : Store (List UInt8)} (h : Holds size r s)
    (packet : List UInt8) :
    ((queuePuts r packet).1 ≠ -1 ↔ (s.put frameSize size packet).1 = true) ∧
      Holds size (queuePuts r packet).2 (s.put frameSize size packet).2 := by
  obtain ⟨hring, hret⟩ := protoAddRb_wrote h.ring packet
  have hused := h.used_eq
  have hle := h.used_le
  rw [queuePuts, Store.put]
  by_cases hfit : s.used frameSize + frameSize packet ≤ size
  · rw [if_pos hfit]
    rw [hused, frameSize] at hfit
    refine ⟨?_, ?_⟩
    · rw [hret, if_pos hfit]
      refine ⟨fun _ => rfl, fun _ => ret_ne_neg_one ?_⟩
      exact Nat.lt_of_le_of_lt (Nat.le_of_add_left_le hfit) hsize
    · rw [List.take_of_length_le (by omega)] at hring
      exact hring.holds (h.layout.append_frame packet)
  · rw [if_neg hfit]
    rw [hused, frameSize] at hfit
    refine ⟨?_, ?_⟩
    · rw [hret, if_neg hfit]
      exact ⟨fun hc => absurd rfl hc, fun hc => absurd hc Bool.false_ne_true⟩
    · refine hring.holds ?_
      have hlt : size - r.contents.length < (frame packet).length := by omega
      have htorn := h.layout.append_torn (not_mem_take_frame hlt)
      rw [List.length_take_of_le (Nat.le_of_lt hlt)] at htorn
      have hlost : s.torn + (size - r.contents.length) = size - Store.costs frameSize s.blocks := by
        unfold Store.used at hused hle
        omega
      rw [hlost] at htorn
      exact htorn

/-- **A get of the queue is a get of the store**, as far as the buffer goes. -/
theorem queueGets_holds {size : ℕ} {r : RingBuf} {s : Store (List UInt8)} (h : Holds size r s)
    (buffer : List UInt8) {maxLen : ℕ} (hbuf : maxLen ≤ buffer.length) (isBegin : UInt8) :
    ((queueGets r buffer maxLen isBegin).1.map fun len => (queueGets r buffer maxLen isBegin).2.1.take len) =
        s.get.1.map (List.take maxLen) ∧
      (queueGets r buffer maxLen isBegin).2.1.length = buffer.length ∧
      Holds size (queueGets r buffer maxLen isBegin).2.2 s.get.2 := by
  obtain ⟨hring, hlayout⟩ := h
  unfold queueGets protoParseRb
  rw [hring.fillCnt_eq]
  generalize r.contents = bytes at hring hlayout
  obtain ⟨blocks, torn⟩ := s
  cases blocks with
  | nil =>
    obtain ⟨r', hloop, hr'⟩ := protoParseRbLoop_torn (protoInit buffer maxLen isBegin) hring hlayout.2
    rw [hloop]
    exact ⟨rfl, (feed_buf bytes (protoInit buffer maxLen isBegin)).2, hr'.holds ⟨rfl, List.not_mem_nil⟩⟩
  | cons b blocks =>
    obtain ⟨packet, lost⟩ := b
    obtain ⟨junk, rest, rfl, -, hjunk, hrest⟩ := hlayout
    -- all before the end of the frame
    have hpre : junk ++ (frame packet ++ rest) = (junk ++ 0x7E :: stuff packet) ++ 0x7F :: rest := by
      simp [frame]
    rw [hpre] at hring ⊢
    have hstop : 0x7F ∉ junk ++ 0x7E :: stuff packet := by
      intro hm
      obtain hm | hm := List.mem_append.mp hm
      · exact hjunk hm
      · obtain hm | hm := List.mem_cons.mp hm
        · exact absurd hm (by decide)
        · exact not_mem_stuff packet hm
    have hn : (junk ++ 0x7E :: stuff packet).length < (junk ++ 0x7E :: stuff packet ++ 0x7F :: rest).length := by
      simp only [List.length_append, List.length_cons]
      omega
    obtain ⟨r', hloop, hr'⟩ := protoParseRbLoop_stop _ (protoInit buffer maxLen isBegin) hring hstop hn
    rw [hloop]
    refine ⟨?_, (feed_buf _ (protoInit buffer maxLen isBegin)).2, hr'.holds hrest⟩
    exact congrArg some (feed_frame (protoInit buffer maxLen isBegin) junk packet hbuf)

/-! ### mqtt.c: queueing a message -/

/-- The loop of `MQTT_Publish`, `MQTT_Subscribe`, `MQTT_UnSubscribe` and `MQTT_Ping`;
`none` if it has not ended after `n` rounds. -/
def queueing (isBegin : ℕ → UInt8) (message : List UInt8) :
    ℕ → RingBuf → List UInt8 → Option (Bool × RingBuf)
  | 0, _, _ => none
  | n + 1, msgQueue, dataBuffer =>
    let put := queuePuts msgQueue message
    if put.1 = -1 then
      let got := queueGets put.2 dataBuffer MQTT_BUF_SIZE (isBegin n)
      if got.1 = none then some (false, got.2.2) else queueing isBegin message n got.2.2 got.2.1
    else some (true, put.2)

/-- The loop is a put by force; it ends, since every round takes a message away. -/
theorem queueing_holds {size : ℕ} (hsize : size < 65535) (isBegin : ℕ → UInt8) (message : List UInt8)
    (blocks : List (List UInt8 × ℕ)) {torn n : ℕ} {r : RingBuf} {dataBuffer : List UInt8}
    (h : Holds size r ⟨blocks, torn⟩) (hbuf : dataBuffer.length = MQTT_BUF_SIZE) (hn : blocks.length < n) :
    ∃ r', queueing isBegin message n r dataBuffer = some ((Store.force frameSize size message blocks torn).1, r') ∧
      Holds size r' (Store.force frameSize size message blocks torn).2 := by
  obtain ⟨n, rfl⟩ := Nat.exists_eq_add_of_lt hn
  induction blocks generalizing torn r dataBuffer with
  | nil =>
    obtain ⟨hiff, hput⟩ := queuePuts_holds hsize h message
    obtain ⟨hgot, -, hget⟩ := queueGets_holds hput dataBuffer (Nat.le_of_eq hbuf.symm) (isBegin n)
    rw [List.length_nil, Nat.zero_add]
    unfold Store.put at hiff hput hgot hget
    unfold queueing Store.force
    by_cases hfit : Store.used frameSize ⟨[], torn⟩ + frameSize message ≤ size
    · rw [if_pos hfit] at hiff hput
      rw [if_pos hfit, if_neg (hiff.mpr rfl)]
      exact ⟨_, rfl, hput⟩
    · rw [if_neg hfit] at hiff hgot hget
      rw [if_neg hfit, if_pos (by by_contra hc; exact absurd (hiff.mp hc) Bool.false_ne_true)]
      rw [if_pos (Option.map_eq_none_iff.mp hgot)]
      exact ⟨_, rfl, hget⟩
  | cons b blocks ih =>
    obtain ⟨hiff, hput⟩ := queuePuts_holds hsize h message
    obtain ⟨hgot, hlen, hget⟩ := queueGets_holds hput dataBuffer (Nat.le_of_eq hbuf.symm)
      (isBegin ((b :: blocks).length + n))
    unfold Store.put at hiff hput hgot hget
    unfold queueing Store.force
    by_cases hfit : Store.used frameSize ⟨b :: blocks, torn⟩ + frameSize message ≤ size
    · rw [if_pos hfit] at hiff hput
      rw [if_pos hfit, if_neg (hiff.mpr rfl)]
      exact ⟨_, rfl, hput⟩
    · rw [if_neg hfit] at hiff hgot hget
      rw [if_neg hfit, if_pos (by by_contra hc; exact absurd (hiff.mp hc) Bool.false_ne_true)]
      have hsome : (queueGets (queuePuts r message).2 dataBuffer MQTT_BUF_SIZE
          (isBegin ((b :: blocks).length + n))).1 ≠ none := by
        intro hc
        rw [hc] at hgot
        exact absurd hgot (Option.some_ne_none _).symm
      rw [if_neg hsome]
      have hrec := ih hget (hlen.trans hbuf) (by omega)
      rw [List.length_cons, Nat.add_right_comm blocks.length 1 n]
      rw [List.length_cons, Nat.add_right_comm blocks.length 1 n] at hrec
      exact hrec

/-- Whatever the ring holds, a get that gives no message empties it. -/
theorem queueGets_none {r : RingBuf} {buffer : List UInt8} {maxLen : ℕ} {isBegin : UInt8}
    (h : (queueGets r buffer maxLen isBegin).1 = none) :
    queueIsEmpty (queueGets r buffer maxLen isBegin).2.2 = true := by
  have hloop (n : ℕ) : ∀ (rb : RingBuf) (proto : ProtoParser), rb.fillCnt = n →
      (protoParseRbLoop n rb proto).1 = none → (protoParseRbLoop n rb proto).2.2.fillCnt = 0 := by
    induction n with
    | zero => exact fun rb proto hn _ => hn
    | succ n ih =>
      intro rb proto hn hnone
      have hget : ringbufGet rb = some (rb.buf.getD rb.pR 0, { rb with
          fillCnt := rb.fillCnt - 1, pR := if rb.size ≤ rb.pR + 1 then 0 else rb.pR + 1 }) :=
        if_neg (by omega)
      rw [protoParseRbLoop, hget] at hnone ⊢
      simp only at hnone ⊢
      split at hnone
      · exact absurd hnone (Option.some_ne_none _)
      · next hret =>
        rw [if_neg hret]
        exact ih _ _ (by simp only; omega) hnone
  exact decide_eq_true (hloop _ r _ rfl h)

/-- A message that is not queued leaves an empty queue. -/
theorem queueing_false {isBegin : ℕ → UInt8} {message : List UInt8} {n : ℕ} {r r' : RingBuf} {dataBuffer : List UInt8}
    (h : queueing isBegin message n r dataBuffer = some (false, r')) : queueIsEmpty r' = true := by
  induction n generalizing r dataBuffer with
  | zero => exact absurd h.symm (Option.some_ne_none _)
  | succ n ih =>
    unfold queueing at h
    simp only at h
    split at h
    · split at h
      · next hnone =>
        obtain rfl := (Prod.mk.inj (Option.some.inj h)).2
        exact queueGets_none hnone
      · exact ih h
    · exact absurd (Prod.mk.inj (Option.some.inj h)).1.symm Bool.false_ne_true

/-! ### Runs -/

inductive Event
  /-- `QUEUE_Puts`, and what it returns. -/
  | puts (packet : List UInt8) (ret : ℤ)
  /-- `QUEUE_Gets` into a buffer; the message it gives, or none. -/
  | gets (dataBuffer : List UInt8) (isBegin : UInt8) (got : Option (List UInt8))
  /-- A message is queued, and what is returned. -/
  | queueing (dataBuffer : List UInt8) (isBegin : ℕ → UInt8) (message : List UInt8) (ret : Bool)

def Event.accepted : Event → List (List UInt8)
  | .puts packet ret => if ret = -1 then [] else [packet]
  | .gets _ _ _ => []
  | .queueing _ _ message ret => if ret then [message] else []

def Event.returned : Event → List (List UInt8)
  | .gets _ _ got => got.toList
  | _ => []

/-- It can take messages out without returning them. -/
def Event.Drops : Event → Prop
  | .queueing _ _ _ _ => True
  | _ => False

/-- The message that a get gives. -/
def message (res : Option ℕ × List UInt8 × RingBuf) : Option (List UInt8) := res.1.map fun len => res.2.1.take len

def step (r : RingBuf) : Event → Option RingBuf
  | .puts packet ret => if (queuePuts r packet).1 = ret then some (queuePuts r packet).2 else none
  | .gets dataBuffer isBegin got =>
    let res := queueGets r dataBuffer MQTT_BUF_SIZE isBegin
    if dataBuffer.length = MQTT_BUF_SIZE ∧ message res = got then some res.2.2 else none
  | .queueing dataBuffer isBegin msg ret =>
    if dataBuffer.length = MQTT_BUF_SIZE then
      (queueing isBegin msg (r.size + 1) r dataBuffer).bind fun res => if res.1 = ret then some res.2 else none
    else none

def machine (size : ℕ) : Machine RingBuf Event := ⟨queueInit ⟨[], 0, 0, 0, 0⟩ size, step⟩

/-- What the buffer holds of a message. -/
def cut (packet : List UInt8) : List UInt8 := packet.take MQTT_BUF_SIZE

theorem frameSize_pos (packet : List UInt8) : 0 < frameSize packet := Nat.succ_pos _

/-- What a step does to the messages held: those returned or dropped come from the
front, one accepted goes to the back. -/
theorem step_holds {size : ℕ} (hsize : size < 65535) {r r' : RingBuf} {s : Store (List UInt8)} {e : Event}
    (h : Holds size r s) (hs : step r e = some r') :
    ∃ s', Holds size r' s' ∧
      (e.returned ++ s'.items.map cut).Sublist (s.items.map cut ++ e.accepted.map cut) ∧
      (¬ e.Drops → e.returned ++ s'.items.map cut = s.items.map cut ++ e.accepted.map cut) := by
  cases e with
  | puts packet ret =>
    obtain ⟨hiff, hput⟩ := queuePuts_holds hsize h packet
    simp only [step, Option.ite_none_right_eq_some, Option.some.injEq] at hs
    obtain ⟨rfl, rfl⟩ := hs
    have hitems : (s.put frameSize size packet).2.items.map cut =
        s.items.map cut ++ (Event.puts packet (queuePuts r packet).1).accepted.map cut := by
      rw [Store.items_put, List.map_append]
      congr 1
      simp only [Event.accepted]
      by_cases hret : (queuePuts r packet).1 = -1
      · rw [if_pos hret, if_neg fun hc => hiff.mpr hc hret]
      · rw [if_neg hret, if_pos (hiff.mp hret)]
    refine ⟨_, hput, ?_, fun _ => hitems⟩
    exact hitems ▸ List.Sublist.refl _
  | gets dataBuffer isBegin got =>
    simp only [step, Option.ite_none_right_eq_some, Option.some.injEq] at hs
    obtain ⟨⟨hbuf, rfl⟩, rfl⟩ := hs
    obtain ⟨hgot, -, hget⟩ := queueGets_holds h dataBuffer (Nat.le_of_eq hbuf.symm) isBegin
    have hitems : (message (queueGets r dataBuffer MQTT_BUF_SIZE isBegin)).toList ++ s.get.2.items.map cut =
        s.items.map cut ++ [] := by
      rw [message, hgot, Store.get_eq_head, Store.items_get, List.append_nil]
      cases s.items with
      | nil => rfl
      | cons packet packets => rfl
    refine ⟨_, hget, ?_, fun _ => hitems⟩
    exact hitems ▸ List.Sublist.refl _
  | queueing dataBuffer isBegin msg ret =>
    simp only [step, Option.ite_none_right_eq_some, Option.bind_eq_some_iff, Option.some.injEq] at hs
    obtain ⟨hbuf, res, hres, hret, rfl⟩ := hs
    have hn : s.blocks.length < r.size + 1 := by
      have h1 := Store.length_le_costs frameSize_pos s.blocks
      have h2 := h.used_le
      rw [h.ring.size_eq]
      unfold Store.used at h2
      omega
    obtain ⟨r', hloop, hr'⟩ := queueing_holds hsize isBegin msg s.blocks h hbuf hn
    rw [hloop, Option.some.injEq] at hres
    subst hres
    subst hret
    refine ⟨_, hr', ?_, fun hc => absurd trivial hc⟩
    have hsub : (Store.force frameSize size msg s.blocks s.torn).2.items.Sublist
        (s.items ++ if (Store.force frameSize size msg s.blocks s.torn).1 then [msg] else []) := by
      rw [Store.force_eq msg h.used_le]
      split
      · rw [Store.items_put]
      · exact Store.items_forced_sublist msg s.blocks
    have hmap := hsub.map cut
    rw [List.map_append] at hmap
    exact hmap

theorem run_holds {size : ℕ} (hsize : size < 65535) {r r' : RingBuf} {s : Store (List UInt8)} {es : List Event}
    (h : Holds size r s) (hr : (machine size).run r es = some r') :
    ∃ s', Holds size r' s' ∧
      (es.flatMap Event.returned ++ s'.items.map cut).Sublist
        (s.items.map cut ++ (es.flatMap Event.accepted).map cut) ∧
      ((∀ e ∈ es, ¬ e.Drops) →
        es.flatMap Event.returned ++ s'.items.map cut = s.items.map cut ++ (es.flatMap Event.accepted).map cut) := by
  induction es generalizing r s with
  | nil =>
    rw [Machine.run_nil, Option.some.injEq] at hr
    subst hr
    refine ⟨s, h, ?_, fun _ => ?_⟩
    · rw [List.flatMap_nil, List.flatMap_nil, List.map_nil, List.append_nil, List.nil_append]
    · rw [List.flatMap_nil, List.flatMap_nil, List.map_nil, List.append_nil, List.nil_append]
  | cons e es ih =>
    obtain ⟨r₁, hstep, hrun⟩ := (machine size).run_cons_eq_some.mp hr
    obtain ⟨s₁, h₁, hsub₁, heq₁⟩ := step_holds hsize h hstep
    obtain ⟨s', h', hsub, heq⟩ := ih h₁ hrun
    refine ⟨s', h', ?_, fun hno => ?_⟩
    · rw [List.flatMap_cons, List.flatMap_cons, List.map_append, List.append_assoc]
      have hlast := (List.Sublist.refl e.returned).append hsub
      have hfirst := hsub₁.append (List.Sublist.refl ((es.flatMap Event.accepted).map cut))
      rw [List.append_assoc, List.append_assoc] at hfirst
      exact hlast.trans hfirst
    · rw [List.flatMap_cons, List.flatMap_cons, List.map_append, List.append_assoc,
        heq fun f hf => hno f (List.mem_cons_of_mem e hf), ← List.append_assoc, heq₁ (hno e List.mem_cons_self),
        List.append_assoc]

/-- **The queue after a run** holds messages that were accepted and not yet returned,
and the next get returns the first of them. -/
theorem fifo {size : ℕ} (h2 : 2 ≤ size) (hsize : size < 65535) {es : List Event} {r : RingBuf}
    (hr : (machine size).run (machine size).init es = some r) :
    ∃ queued : List (List UInt8),
      (es.flatMap Event.returned ++ queued.map cut).Sublist ((es.flatMap Event.accepted).map cut) ∧
      ((∀ e ∈ es, ¬ e.Drops) →
        es.flatMap Event.returned ++ queued.map cut = (es.flatMap Event.accepted).map cut) ∧
      ∀ dataBuffer isBegin, dataBuffer.length = MQTT_BUF_SIZE →
        message (queueGets r dataBuffer MQTT_BUF_SIZE isBegin) = queued.head?.map cut := by
  obtain ⟨s, h, hsub, heq⟩ := run_holds hsize (holds_init ⟨[], 0, 0, 0, 0⟩ h2) hr
  refine ⟨s.items, hsub, heq, fun dataBuffer isBegin hbuf => ?_⟩
  obtain ⟨hgot, -, -⟩ := queueGets_holds h dataBuffer (Nat.le_of_eq hbuf.symm) isBegin
  rw [message, hgot, Store.get_eq_head]
  rfl

/-- A ring of eight bytes: a message fits, the next one does not and is torn, and the
first one is taken out. -/
def putTearGet : List Event :=
  [.puts [1, 0x7D] 5, .puts [2, 3] (-1), .gets (List.replicate MQTT_BUF_SIZE 0) 0 (some [1, 0x7D])]

theorem fifo_putTearGet : ∃ (r : RingBuf) (queued : List (List UInt8)),
    (machine 8).run (machine 8).init putTearGet = some r ∧
      putTearGet.flatMap Event.returned ++ queued.map cut = (putTearGet.flatMap Event.accepted).map cut := by
  have hrun : ((machine 8).run (machine 8).init putTearGet).isSome = true := by decide +kernel
  obtain ⟨r, hr⟩ := Option.isSome_iff_exists.mp hrun
  obtain ⟨queued, -, hall, -⟩ := fifo (by decide) (by decide) hr
  refine ⟨r, queued, hr, hall fun e he => ?_⟩
  simp only [putTearGet, List.mem_cons, List.not_mem_nil, or_false] at he
  obtain rfl | rfl | rfl := he <;> exact not_false

/-- **What queueing a message comes to**, in every state that a run leads to. It ends
within as many rounds as there are messages in the queue, and one more. It succeeds if
the message fits, or if some message frees enough room, its own and that lost in front of
it; the oldest messages are then gone, none of them if the message fits. Else the queue
is lost, and the message too, also one that fits in the empty queue. -/
theorem queueing_outcome {size : ℕ} (h2 : 2 ≤ size) (hsize : size < 65535) {es : List Event} {r : RingBuf}
    (hr : (machine size).run (machine size).init es = some r) :
    ∃ s : Store (List UInt8), Holds size r s ∧
      ∀ (msg dataBuffer : List UInt8) (isBegin : ℕ → UInt8) (n : ℕ), dataBuffer.length = MQTT_BUF_SIZE →
        s.blocks.length < n → ∃ ret r' s', queueing isBegin msg n r dataBuffer = some (ret, r') ∧ Holds size r' s' ∧
          (ret = true ↔ r.fillCnt + frameSize msg ≤ size ∨ ∃ b ∈ s.blocks, frameSize msg ≤ Store.cost frameSize b) ∧
          (ret = true → ∃ dropped kept, s.items = dropped ++ kept ∧ s'.items = kept ++ [msg] ∧
            (r.fillCnt + frameSize msg ≤ size → dropped = [])) ∧
          (ret = false → queueIsEmpty r' = true) := by
  obtain ⟨s, h, -, -⟩ := run_holds hsize (holds_init ⟨[], 0, 0, 0, 0⟩ h2) hr
  refine ⟨s, h, fun msg dataBuffer isBegin n hbuf hn => ?_⟩
  obtain ⟨r', hloop, hr'⟩ := queueing_holds hsize isBegin msg s.blocks h hbuf hn
  refine ⟨_, r', _, hloop, hr', ?_⟩
  have hfill : r.fillCnt = s.used frameSize := by rw [h.ring.fillCnt_eq, h.used_eq]
  rw [hr'.isEmpty_iff, hfill, Store.force_eq msg h.used_le]
  by_cases hfit : s.used frameSize + frameSize msg ≤ size
  · rw [if_pos hfit, Store.put, if_pos hfit]
    refine ⟨iff_of_true rfl (.inl hfit), fun _ => ⟨[], s.items, rfl, ?_, fun _ => rfl⟩, fun hc => ?_⟩
    · exact List.map_append
    · exact absurd hc.symm Bool.false_ne_true
  · rw [if_neg hfit]
    refine ⟨?_, fun hret => ?_, fun hret => ?_⟩
    · rw [← not_iff_not, Bool.not_eq_true, Store.forced_eq_false, not_or, not_exists]
      simp only [not_and, Nat.not_le]
      exact ⟨fun hall => ⟨Nat.lt_of_not_le hfit, hall⟩, fun hall => hall.2⟩
    · obtain ⟨dropped, kept, hsplit, hitems⟩ := Store.forced_of_true hret
      exact ⟨dropped, kept, hsplit, hitems, fun hc => absurd hc hfit⟩
    · rw [Store.forced_of_false hret]
      rfl

/-- After the same run the ring holds only what is torn: a message of up to six bytes is queued. -/
theorem queueing_outcome_putTearGet : ∃ r s, (machine 8).run (machine 8).init putTearGet = some r ∧ Holds 8 r s ∧
    ∃ ret r', queueing (fun _ => 0) [4, 5] (s.blocks.length + 1) r (List.replicate MQTT_BUF_SIZE 0) = some (ret, r') ∧
      (ret = false → queueIsEmpty r' = true) := by
  have hrun : ((machine 8).run (machine 8).init putTearGet).isSome = true := by decide +kernel
  obtain ⟨r, hr⟩ := Option.isSome_iff_exists.mp hrun
  obtain ⟨s, h, hall⟩ := queueing_outcome (by decide) (by decide) hr
  obtain ⟨ret, r', -, hloop, -, -, -, hlost⟩ := hall [4, 5] (List.replicate MQTT_BUF_SIZE 0) (fun _ => 0)
    (s.blocks.length + 1) List.length_replicate (Nat.lt_succ_self _)
  exact ⟨r, s, hr, h, ret, r', hloop, hlost⟩

end MqttQueue
end Netacademia
