/-
# The messages of the MQTT client

`examples/esp_mqtt_proj/mqtt/mqtt_msg.c`: the messages are put together in the buffer of
the connection, behind three bytes for the header; a header of two bytes stands in the
last two of them. What is read from a message is read from a buffer in which other
bytes can follow it.

* `publish_read`: of a PUBLISH that `mqtt_msg_publish` built, whatever follows it, the
  readers give the total length, the topic, the data and the message id; but an id at
  the very end of the buffer is not seen.
-/
import Mathlib.Data.Nat.Bitwise
import Mathlib.Data.List.Basic

namespace Netacademia
namespace MqttMsg

/-! ### Message types -/

def MQTT_MSG_TYPE_CONNECT : ℕ := 1

def MQTT_MSG_TYPE_CONNACK : ℕ := 2

def MQTT_MSG_TYPE_PUBLISH : ℕ := 3

def MQTT_MSG_TYPE_PUBACK : ℕ := 4

def MQTT_MSG_TYPE_PUBREC : ℕ := 5

def MQTT_MSG_TYPE_PUBREL : ℕ := 6

def MQTT_MSG_TYPE_PUBCOMP : ℕ := 7

def MQTT_MSG_TYPE_SUBSCRIBE : ℕ := 8

def MQTT_MSG_TYPE_SUBACK : ℕ := 9

def MQTT_MSG_TYPE_UNSUBSCRIBE : ℕ := 10

def MQTT_MSG_TYPE_UNSUBACK : ℕ := 11

def MQTT_MSG_TYPE_PINGREQ : ℕ := 12

def MQTT_MSG_TYPE_PINGRESP : ℕ := 13

/-! ### Writing -/

def MQTT_MAX_FIXED_HEADER_SIZE : ℕ := 3

structure MqttConnection where
  /-- `message_id`, the last one assigned. -/
  messageId : UInt16
  bufferLength : ℕ
  deriving DecidableEq, Repr

/-- The message put together, and what comes back: the bytes behind the header (the
length of the message is theirs and that of the header). `none`: it does not fit. -/
def appendString (conn : MqttConnection) (body string : List UInt8) : Option (List UInt8) :=
  if conn.bufferLength < MQTT_MAX_FIXED_HEADER_SIZE + body.length + string.length + 2 then none
  else some (body ++ UInt8.ofNat (string.length >>> 8) :: UInt8.ofNat (string.length &&& 0xff) :: string)

/-- `while(message_id == 0) message_id = ++connection->message_id;`: the loop goes round
a second time where the number wraps to 0. -/
def nextMessageId (conn : MqttConnection) : UInt16 :=
  if conn.messageId + 1 = 0 then conn.messageId + 2 else conn.messageId + 1

/-- With the id, 0 if it does not fit, there come the connection and the bytes. -/
def appendMessageId (conn : MqttConnection) (body : List UInt8) (messageId : UInt16) :
    UInt16 × MqttConnection × List UInt8 :=
  let id := if messageId = 0 then nextMessageId conn else messageId
  let conn := if messageId = 0 then { conn with messageId := id } else conn
  if conn.bufferLength < MQTT_MAX_FIXED_HEADER_SIZE + body.length + 2 then (0, conn, body)
  else (id, conn, body ++ [UInt8.ofNat (id.toNat >>> 8), UInt8.ofNat (id.toNat &&& 0xff)])

def headerByte (type dup qos retain : ℕ) : UInt8 :=
  UInt8.ofNat (((type &&& 0x0f) <<< 4) ||| ((dup &&& 1) <<< 3) ||| ((qos &&& 3) <<< 1) ||| (retain &&& 1))

/-- The bytes of the message; `failMessage` leaves none. -/
def finiMessage (body : List UInt8) (type dup qos retain : ℕ) : List UInt8 :=
  if 127 < body.length then
    headerByte type dup qos retain :: UInt8.ofNat (0x80 ||| (body.length % 128)) ::
      UInt8.ofNat (body.length / 128) :: body
  else headerByte type dup qos retain :: UInt8.ofNat body.length :: body

/-- The end of `mqtt_msg_publish`, with the id stored to `*message_id`. -/
def publishData (conn : MqttConnection) (body data : List UInt8) (id : UInt16) (qos retain : ℕ) :
    List UInt8 × Option UInt16 × MqttConnection :=
  if conn.bufferLength < MQTT_MAX_FIXED_HEADER_SIZE + body.length + data.length then ([], some id, conn)
  else (finiMessage (body ++ data) MQTT_MSG_TYPE_PUBLISH 0 qos retain, some id, conn)

/-- A message, what was stored to `*message_id`, and the connection. -/
def mqttMsgPublish (conn : MqttConnection) (topic data : List UInt8) (qos retain : ℕ) :
    List UInt8 × Option UInt16 × MqttConnection :=
  if topic = [] then ([], none, conn)
  else
    match appendString conn [] topic with
    | none => ([], none, conn)
    | some body =>
      if 0 < qos then
        let res := appendMessageId conn body 0
        if res.1 = 0 then ([], some 0, res.2.1) else publishData res.2.1 res.2.2 data res.1 qos retain
      else publishData conn body data 0 qos retain

/-- `mqtt_msg_subscribe`, with the byte behind the topic, and `mqtt_msg_unsubscribe`. -/
def mqttMsgTopic (type : ℕ) (tail : List UInt8) (conn : MqttConnection) (topic : List UInt8) :
    List UInt8 × Option UInt16 × MqttConnection :=
  if topic = [] then ([], none, conn)
  else
    let res := appendMessageId conn [] 0
    if res.1 = 0 then ([], some 0, res.2.1)
    else
      match appendString res.2.1 res.2.2 topic with
      | none => ([], some res.1, res.2.1)
      | some body =>
        if res.2.1.bufferLength < MQTT_MAX_FIXED_HEADER_SIZE + body.length + tail.length then ([], some res.1, res.2.1)
        else (finiMessage (body ++ tail) type 0 1 0, some res.1, res.2.1)

def mqttMsgSubscribe (conn : MqttConnection) (topic : List UInt8) (qos : ℕ) :=
  mqttMsgTopic MQTT_MSG_TYPE_SUBSCRIBE [UInt8.ofNat qos] conn topic

def mqttMsgUnsubscribe := mqttMsgTopic MQTT_MSG_TYPE_UNSUBSCRIBE []

/-- `mqtt_msg_puback`, `mqtt_msg_pubrec`, `mqtt_msg_pubrel` and `mqtt_msg_pubcomp`. -/
def mqttMsgAck (type qos : ℕ) (conn : MqttConnection) (messageId : UInt16) : List UInt8 × MqttConnection :=
  let res := appendMessageId conn [] messageId
  if res.1 = 0 then ([], res.2.1) else (finiMessage res.2.2 type 0 qos 0, res.2.1)

def mqttMsgPuback := mqttMsgAck MQTT_MSG_TYPE_PUBACK 0

def mqttMsgPubrec := mqttMsgAck MQTT_MSG_TYPE_PUBREC 0

def mqttMsgPubrel := mqttMsgAck MQTT_MSG_TYPE_PUBREL 1

def mqttMsgPubcomp := mqttMsgAck MQTT_MSG_TYPE_PUBCOMP 0

def mqttMsgPingreq : List UInt8 := finiMessage [] MQTT_MSG_TYPE_PINGREQ 0 0 0

def mqttMsgPingresp : List UInt8 := finiMessage [] MQTT_MSG_TYPE_PINGRESP 0 0 0

/-! ### Reading -/

def mqttGetType (buffer : List UInt8) : ℕ := ((buffer.getD 0 0).toNat &&& 0xf0) >>> 4

def mqttGetQos (buffer : List UInt8) : ℕ := ((buffer.getD 0 0).toNat &&& 0x06) >>> 1

def mqttGetRetain (buffer : List UInt8) : ℕ := (buffer.getD 0 0).toNat &&& 0x01

/-- The loop over the bytes of the remaining length: `i` and `totlen` after it. `totlen`
is an `int`: its sum wraps at 32 bits, and of the count of a shift the target takes
the low five bits, from the sixth byte of a length on. -/
def remainingLoop : List UInt8 → ℕ → UInt32 → ℕ × UInt32
  | [], i, totlen => (i, totlen)
  | b :: bs, i, totlen =>
    let totlen := totlen + (b.toUInt32 &&& 0x7f) <<< UInt32.ofNat (7 * (i - 1))
    if b.toNat &&& 0x80 = 0 then (i + 1, totlen) else remainingLoop bs (i + 1) totlen

/-- The loop from `buffer[1]` to `buffer[length - 1]`. -/
def remaining (buffer : List UInt8) (length : ℕ) : ℕ × UInt32 := remainingLoop ((buffer.take length).drop 1) 1 0

/-- `totlen += i`, an `int`. -/
def mqttGetTotalLength (buffer : List UInt8) (length : ℕ) : ℤ :=
  ((remaining buffer length).2 + UInt32.ofNat (remaining buffer length).1).toBitVec.toInt

/-- Two bytes of the buffer, the high one first. -/
def word (buffer : List UInt8) (i : ℕ) : ℕ := (buffer.getD i 0).toNat <<< 8 ||| (buffer.getD (i + 1) 0).toNat

/-- Where the topic is, and its length; `none` is `NULL`. -/
def mqttGetPublishTopic (buffer : List UInt8) (length : ℕ) : Option (ℕ × ℕ) :=
  let i := (remaining buffer length).1
  if length ≤ i + 2 then none
  else
    let topiclen := word buffer i
    if length < i + 2 + topiclen then none else some (i + 2, topiclen)

/-- Where the data are, and their length; `none` is `NULL` and a length of 0. -/
def mqttGetPublishData (buffer : List UInt8) (blength : ℕ) : Option (ℕ × ℕ) :=
  let i := (remaining buffer blength).1
  let totlen := mqttGetTotalLength buffer blength
  if blength ≤ i + 2 then none
  else
    let topiclen := word buffer i
    let i := i + 2
    if blength ≤ i + topiclen then none
    else
      let i := i + topiclen
      if 0 < mqttGetQos buffer ∧ blength ≤ i + 2 then none
      else
        let i := if 0 < mqttGetQos buffer then i + 2 else i
        if totlen < i then none
        else some (i, if totlen ≤ blength then (totlen - i).toNat else blength - i)

def mqttGetId (buffer : List UInt8) (length : ℕ) : ℕ :=
  if length < 1 then 0
  else if mqttGetType buffer = MQTT_MSG_TYPE_PUBLISH then
    let i := (remaining buffer length).1
    if length ≤ i + 2 then 0
    else
      let topiclen := word buffer i
      let i := i + 2
      if length ≤ i + topiclen then 0
      else
        let i := i + topiclen
        if 0 < mqttGetQos buffer then
          if length ≤ i + 2 then 0 else word buffer i
        else 0
  else if mqttGetType buffer ∈ [MQTT_MSG_TYPE_PUBACK, MQTT_MSG_TYPE_PUBREC, MQTT_MSG_TYPE_PUBREL,
      MQTT_MSG_TYPE_PUBCOMP, MQTT_MSG_TYPE_SUBACK, MQTT_MSG_TYPE_UNSUBACK, MQTT_MSG_TYPE_SUBSCRIBE] then
    if 4 ≤ length ∧ (buffer.getD 1 0).toNat &&& 0x80 = 0 then word buffer 2 else 0
  else 0

/-! ### A number in two bytes -/

def wordBytes (n : ℕ) : List UInt8 := [UInt8.ofNat (n >>> 8), UInt8.ofNat (n &&& 0xff)]

theorem length_wordBytes (n : ℕ) : (wordBytes n).length = 2 := rfl

theorem word_wordBytes {n : ℕ} (h : n < 65536) (rest : List UInt8) : word (wordBytes n ++ rest) 0 = n := by
  have hlow : n &&& 0xff = n % 256 := Nat.and_two_pow_sub_one_eq_mod n 8
  have hhigh : n >>> 8 = n / 256 := Nat.shiftRight_eq_div_pow n 8
  have hh : (UInt8.ofNat (n >>> 8)).toNat = n / 256 := by
    rw [hhigh, UInt8.toNat_ofNat']
    omega
  have hl : (UInt8.ofNat (n &&& 0xff)).toNat = n % 256 := by
    rw [hlow, UInt8.toNat_ofNat']
    omega
  have hor : (n / 256) <<< 8 ||| n % 256 = (n / 256) <<< 8 + n % 256 :=
    (Nat.shiftLeft_add_eq_or_of_lt (Nat.mod_lt n (by decide)) (n / 256)).symm
  calc word (wordBytes n ++ rest) 0 = (UInt8.ofNat (n >>> 8)).toNat <<< 8 ||| (UInt8.ofNat (n &&& 0xff)).toNat := rfl
    _ = (n / 256) <<< 8 + n % 256 := by rw [hh, hl, hor]
    _ = n := by
      rw [Nat.shiftLeft_eq]
      omega

/-! ### The header of a message -/

def headerSize (body : List UInt8) : ℕ := if 127 < body.length then 3 else 2

/-- What a message is behind its header. -/
theorem finiMessage_eq (body : List UInt8) (type dup qos retain : ℕ) :
    ∃ pre, finiMessage body type dup qos retain = pre ++ body ∧ pre.length = headerSize body ∧
      pre.getD 0 0 = headerByte type dup qos retain := by
  unfold finiMessage headerSize
  by_cases h : 127 < body.length
  · rw [if_pos h, if_pos h]
    exact ⟨[_, _, _], rfl, rfl, rfl⟩
  · rw [if_neg h, if_neg h]
    exact ⟨[_, _], rfl, rfl, rfl⟩

theorem length_finiMessage (body : List UInt8) (type dup qos retain : ℕ) :
    (finiMessage body type dup qos retain).length = headerSize body + body.length := by
  obtain ⟨pre, he, hlen, -⟩ := finiMessage_eq body type dup qos retain
  rw [he, List.length_append, hlen]

theorem headerSize_le (body : List UInt8) : 2 ≤ headerSize body ∧ headerSize body ≤ 3 := by
  unfold headerSize
  split <;> omega

/-- A byte of the remaining length: the low seven bits, and whether another one follows. -/
theorem low_byte {n : ℕ} (h : n < 128) :
    (UInt8.ofNat n).toUInt32 &&& 0x7f = UInt32.ofNat n ∧ (UInt8.ofNat n).toNat &&& 0x80 = 0 := by
  revert n
  decide +kernel

theorem high_byte {n : ℕ} (h : n < 128) :
    (UInt8.ofNat (0x80 ||| n)).toUInt32 &&& 0x7f = UInt32.ofNat n ∧
      (UInt8.ofNat (0x80 ||| n)).toNat &&& 0x80 ≠ 0 := by
  revert n
  decide +kernel

/-- Two bytes of a length, as the loop adds them up. -/
theorem totlen_two (n : ℕ) :
    0 + UInt32.ofNat (n % 128) <<< UInt32.ofNat (7 * (1 - 1)) +
      UInt32.ofNat (n / 128) <<< UInt32.ofNat (7 * (1 + 1 - 1)) = UInt32.ofNat n := by
  apply UInt32.toNat_inj.mp
  simp only [UInt32.toNat_add, UInt32.toNat_shiftLeft, UInt32.toNat_ofNat', UInt32.toNat_zero, Nat.shiftLeft_eq,
    Nat.reduceSub, Nat.reduceMul, Nat.reduceAdd, Nat.reduceMod, Nat.reducePow]
  omega

theorem totlen_one (n : ℕ) :
    0 + UInt32.ofNat n <<< UInt32.ofNat (7 * (1 - 1)) = UInt32.ofNat n := by
  apply UInt32.toNat_inj.mp
  simp only [UInt32.toNat_add, UInt32.toNat_shiftLeft, UInt32.toNat_ofNat', UInt32.toNat_zero, Nat.shiftLeft_eq,
    Nat.reduceSub, Nat.reduceMul, Nat.reduceMod, Nat.reducePow]
  omega

/-- A sum that fits an `int`. -/
theorem toInt_ofNat_add {m n : ℕ} (h : m + n < 2147483648) :
    (UInt32.ofNat m + UInt32.ofNat n).toBitVec.toInt = m + n := by
  have hnat : (UInt32.ofNat m + UInt32.ofNat n).toBitVec.toNat = m + n := by
    have hadd : (UInt32.ofNat m + UInt32.ofNat n).toNat = m + n := by
      rw [UInt32.toNat_add, UInt32.toNat_ofNat', UInt32.toNat_ofNat']
      omega
    exact hadd
  rw [BitVec.toInt_eq_toNat_of_lt (by rw [hnat]; omega), hnat]
  exact Int.natCast_add m n

/-- **The remaining length is read back**, whatever follows the message. -/
theorem remaining_finiMessage {body : List UInt8} (hbody : body.length < 16384) (type dup qos retain : ℕ)
    (rest : List UInt8) {length : ℕ} (hlen : (finiMessage body type dup qos retain).length ≤ length) :
    remaining (finiMessage body type dup qos retain ++ rest) length =
      (headerSize body, UInt32.ofNat body.length) := by
  rw [length_finiMessage] at hlen
  unfold headerSize at hlen ⊢
  unfold finiMessage remaining
  by_cases h : 127 < body.length
  · rw [if_pos h] at hlen ⊢
    obtain ⟨n, rfl⟩ : ∃ n, length = n + 3 := ⟨length - 3, by omega⟩
    obtain ⟨hlow, hmore⟩ := high_byte (Nat.mod_lt body.length (by decide : 0 < 128))
    obtain ⟨hhigh, hend⟩ := low_byte (by omega : body.length / 128 < 128)
    rw [if_pos h, List.cons_append, List.cons_append, List.cons_append, List.take_succ_cons, List.take_succ_cons,
      List.take_succ_cons, List.drop_succ_cons, List.drop_zero]
    simp only [remainingLoop, if_neg hmore, if_pos hend, hlow, hhigh]
    rw [totlen_two]
  · rw [if_neg h] at hlen ⊢
    obtain ⟨n, rfl⟩ : ∃ n, length = n + 2 := ⟨length - 2, by omega⟩
    obtain ⟨hlow, hend⟩ := low_byte (by omega : body.length < 128)
    rw [if_neg h, List.cons_append, List.cons_append, List.take_succ_cons, List.take_succ_cons, List.drop_succ_cons,
      List.drop_zero]
    simp only [remainingLoop, if_pos hend, hlow]
    rw [totlen_one]

theorem headerByte_read : ∀ type < 16, ∀ dup < 2, ∀ qos < 4, ∀ retain < 2,
    ((headerByte type dup qos retain).toNat &&& 0xf0) >>> 4 = type ∧
      ((headerByte type dup qos retain).toNat &&& 0x06) >>> 1 = qos ∧
      (headerByte type dup qos retain).toNat &&& 0x01 = retain := by
  decide +kernel

/-- Only the low bits of what goes into the first byte matter. -/
theorem headerByte_mod (type dup qos retain : ℕ) :
    headerByte type dup qos retain = headerByte (type % 16) (dup % 2) (qos % 4) (retain % 2) := by
  have h4 (n : ℕ) : n % 16 &&& 0x0f = n &&& 0x0f := by
    rw [Nat.and_two_pow_sub_one_eq_mod n 4, Nat.and_two_pow_sub_one_eq_mod _ 4, Nat.mod_mod]
  have h1 (n : ℕ) : n % 2 &&& 1 = n &&& 1 := by
    rw [Nat.and_two_pow_sub_one_eq_mod n 1, Nat.and_two_pow_sub_one_eq_mod _ 1, Nat.mod_mod]
  have h2 (n : ℕ) : n % 4 &&& 3 = n &&& 3 := by
    rw [Nat.and_two_pow_sub_one_eq_mod n 2, Nat.and_two_pow_sub_one_eq_mod _ 2, Nat.mod_mod]
  unfold headerByte
  rw [h4, h1, h2, h1]

section Read

variable (body : List UInt8) (type dup qos retain : ℕ) (rest : List UInt8)

theorem getD_zero_finiMessage :
    (finiMessage body type dup qos retain ++ rest).getD 0 0 = headerByte type dup qos retain := by
  unfold finiMessage
  split <;> rfl

theorem getType_finiMessage : mqttGetType (finiMessage body type dup qos retain ++ rest) = type % 16 := by
  rw [mqttGetType, getD_zero_finiMessage, headerByte_mod]
  exact (headerByte_read _ (Nat.mod_lt _ (by decide)) _ (Nat.mod_lt _ (by decide)) _ (Nat.mod_lt _ (by decide)) _
    (Nat.mod_lt _ (by decide))).1

theorem getQos_finiMessage : mqttGetQos (finiMessage body type dup qos retain ++ rest) = qos % 4 := by
  rw [mqttGetQos, getD_zero_finiMessage, headerByte_mod]
  exact (headerByte_read _ (Nat.mod_lt _ (by decide)) _ (Nat.mod_lt _ (by decide)) _ (Nat.mod_lt _ (by decide)) _
    (Nat.mod_lt _ (by decide))).2.1

theorem getRetain_finiMessage : mqttGetRetain (finiMessage body type dup qos retain ++ rest) = retain % 2 := by
  rw [mqttGetRetain, getD_zero_finiMessage, headerByte_mod]
  exact (headerByte_read _ (Nat.mod_lt _ (by decide)) _ (Nat.mod_lt _ (by decide)) _ (Nat.mod_lt _ (by decide)) _
    (Nat.mod_lt _ (by decide))).2.2

/-- Behind the header. -/
theorem drop_finiMessage (k : ℕ) :
    (finiMessage body type dup qos retain ++ rest).drop (headerSize body + k) = (body ++ rest).drop k := by
  obtain ⟨pre, he, hlen, -⟩ := finiMessage_eq body type dup qos retain
  rw [he, ← hlen, List.append_assoc, ← List.drop_drop, List.drop_left]

theorem word_eq_drop (buffer : List UInt8) (i : ℕ) : word buffer i = word (buffer.drop i) 0 := by
  unfold word
  rw [List.getD_eq_getElem?_getD, List.getD_eq_getElem?_getD, List.getD_eq_getElem?_getD,
    List.getD_eq_getElem?_getD, List.getElem?_drop, List.getElem?_drop]
  rfl

theorem getTotalLength_finiMessage {length : ℕ} (hbody : body.length < 16384)
    (hlen : (finiMessage body type dup qos retain).length ≤ length) :
    mqttGetTotalLength (finiMessage body type dup qos retain ++ rest) length =
      (finiMessage body type dup qos retain).length := by
  have hsize := (headerSize_le body).2
  rw [mqttGetTotalLength, remaining_finiMessage hbody _ _ _ _ rest hlen, length_finiMessage,
    toInt_ofNat_add (by omega), Int.natCast_add, Int.add_comm]

end Read

/-! ### PUBLISH -/

/-- A PUBLISH; `id` is sent with a quality of service above 0. -/
structure Publish where
  topic : List UInt8
  data : List UInt8
  dup : ℕ
  qos : ℕ
  retain : ℕ
  id : UInt16

namespace Publish

def idBytes (p : Publish) : List UInt8 := if 0 < p.qos then wordBytes p.id.toNat else []

def body (p : Publish) : List UInt8 := wordBytes p.topic.length ++ (p.topic ++ (p.idBytes ++ p.data))

def bytes (p : Publish) : List UInt8 := finiMessage p.body MQTT_MSG_TYPE_PUBLISH p.dup p.qos p.retain

/-- What a header can say. -/
structure Ok (p : Publish) : Prop where
  qos_lt : p.qos < 4
  length_lt : p.body.length < 16384

theorem length_idBytes (p : Publish) : p.idBytes.length = if 0 < p.qos then 2 else 0 := by
  unfold idBytes
  split <;> rfl

theorem length_body (p : Publish) : p.body.length = 2 + p.topic.length + p.idBytes.length + p.data.length := by
  unfold body
  rw [List.length_append, List.length_append, List.length_append, length_wordBytes]
  omega

section Read

variable {p : Publish} (h : p.Ok) (rest : List UInt8) {length : ℕ} (hlen : p.bytes.length ≤ length)

include h in
theorem topic_lt : p.topic.length < 65536 := by
  have h1 := h.length_lt
  rw [length_body] at h1
  omega

theorem length_bytes (p : Publish) : p.bytes.length = headerSize p.body + p.body.length := length_finiMessage ..

include h in
theorem word_topic : word (p.bytes ++ rest) (headerSize p.body) = p.topic.length := by
  have hdrop := drop_finiMessage p.body MQTT_MSG_TYPE_PUBLISH p.dup p.qos p.retain rest 0
  rw [word_eq_drop]
  rw [Nat.add_zero, List.drop_zero] at hdrop
  rw [bytes, hdrop, body, List.append_assoc]
  exact word_wordBytes (topic_lt h) _

theorem word_id (p : Publish) (rest : List UInt8) (hq : 0 < p.qos) :
    word (p.bytes ++ rest) (headerSize p.body + (2 + p.topic.length)) = p.id.toNat := by
  have hdrop := drop_finiMessage p.body MQTT_MSG_TYPE_PUBLISH p.dup p.qos p.retain rest (2 + p.topic.length)
  have hbody : p.body ++ rest =
      (wordBytes p.topic.length ++ p.topic) ++ (wordBytes p.id.toNat ++ (p.data ++ rest)) := by
    unfold body idBytes
    rw [if_pos hq]
    simp only [List.append_assoc]
  have hpre : (wordBytes p.topic.length ++ p.topic).length = 2 + p.topic.length := List.length_append
  rw [word_eq_drop, bytes, hdrop, hbody, ← hpre, List.drop_left]
  exact word_wordBytes p.id.toNat_lt _

include h hlen in
theorem remaining_bytes : remaining (p.bytes ++ rest) length = (headerSize p.body, UInt32.ofNat p.body.length) :=
  remaining_finiMessage h.length_lt _ _ _ _ rest hlen

include h in
theorem getQos_bytes : mqttGetQos (p.bytes ++ rest) = p.qos :=
  (getQos_finiMessage ..).trans (Nat.mod_eq_of_lt h.qos_lt)

theorem getType_bytes (p : Publish) (rest : List UInt8) : mqttGetType (p.bytes ++ rest) = MQTT_MSG_TYPE_PUBLISH :=
  getType_finiMessage ..

include h hlen in
theorem getTotalLength_bytes : mqttGetTotalLength (p.bytes ++ rest) length = p.bytes.length :=
  getTotalLength_finiMessage _ _ _ _ _ rest h.length_lt hlen

include h hlen in
theorem getTopic_bytes (ht : p.topic ≠ []) :
    mqttGetPublishTopic (p.bytes ++ rest) length = some (headerSize p.body + 2, p.topic.length) := by
  have hpos : 0 < p.topic.length := List.length_pos_iff.mpr ht
  have hl := length_bytes p
  have hb := length_body p
  unfold mqttGetPublishTopic
  rw [remaining_bytes h rest hlen]
  simp only [word_topic h rest]
  rw [if_neg (by omega), if_neg (by omega)]

/-- Where the data are read from. -/
theorem drop_data (p : Publish) (rest : List UInt8) :
    (p.bytes ++ rest).drop (headerSize p.body + (2 + p.topic.length + p.idBytes.length)) = p.data ++ rest := by
  have hdrop := drop_finiMessage p.body MQTT_MSG_TYPE_PUBLISH p.dup p.qos p.retain rest
    (2 + p.topic.length + p.idBytes.length)
  have hbody : p.body ++ rest = (wordBytes p.topic.length ++ p.topic ++ p.idBytes) ++ (p.data ++ rest) := by
    unfold body
    simp only [List.append_assoc]
  have hpre : (wordBytes p.topic.length ++ p.topic ++ p.idBytes).length = 2 + p.topic.length + p.idBytes.length := by
    rw [List.length_append, List.length_append, length_wordBytes]
  rw [bytes, hdrop, hbody, ← hpre, List.drop_left]

theorem drop_topic (p : Publish) (rest : List UInt8) :
    (p.bytes ++ rest).drop (headerSize p.body + 2) = p.topic ++ (p.idBytes ++ (p.data ++ rest)) := by
  have hdrop := drop_finiMessage p.body MQTT_MSG_TYPE_PUBLISH p.dup p.qos p.retain rest 2
  rw [bytes, hdrop, body, List.append_assoc, List.append_assoc, List.append_assoc]
  rfl

include h hlen in
/-- The data, or `NULL` where there are none. -/
theorem getData_bytes :
    mqttGetPublishData (p.bytes ++ rest) length =
      some (headerSize p.body + (2 + p.topic.length + p.idBytes.length), p.data.length) ∨
    mqttGetPublishData (p.bytes ++ rest) length = none ∧ p.data = [] := by
  have hl := length_bytes p
  have hb := length_body p
  have hi := length_idBytes p
  unfold mqttGetPublishData
  rw [remaining_bytes h rest hlen, getTotalLength_bytes h rest hlen, getQos_bytes h rest]
  simp only [word_topic h rest]
  by_cases hq : 0 < p.qos
  · rw [if_pos hq] at hi
    rw [if_neg (by omega), if_neg (by omega)]
    by_cases hend : length ≤ headerSize p.body + 2 + p.topic.length + 2
    · rw [if_pos ⟨hq, hend⟩]
      exact .inr ⟨rfl, List.length_eq_zero_iff.mp (by omega)⟩
    · rw [if_neg fun hc => hend hc.2, if_pos hq, if_neg (by omega), if_pos (by omega), hi]
      refine .inl (congrArg some (Prod.ext ?_ ?_)) <;> simp only <;> omega
  · rw [if_neg hq] at hi
    by_cases hend : length ≤ headerSize p.body + 2 + p.topic.length
    · right
      refine ⟨?_, List.length_eq_zero_iff.mp (by omega)⟩
      split_ifs <;> rfl
    · rw [if_neg (by omega), if_neg hend, if_neg fun hc => hq hc.1, if_neg hq, if_neg (by omega), if_pos (by omega), hi]
      refine .inl (congrArg some (Prod.ext ?_ ?_)) <;> simp only <;> omega

include h hlen in
/-- The id, unless it is at the end of the buffer. -/
theorem getId_bytes (hq : 0 < p.qos) (hend : p.bytes.length < length ∨ p.data ≠ []) :
    mqttGetId (p.bytes ++ rest) length = p.id.toNat := by
  have hl := length_bytes p
  have hb := length_body p
  have hi := length_idBytes p
  have hd : p.bytes.length < length ∨ 0 < p.data.length := hend.imp_right List.length_pos_iff.mpr
  rw [if_pos hq] at hi
  unfold mqttGetId
  rw [remaining_bytes h rest hlen, getQos_bytes h rest, getType_bytes]
  simp only [word_topic h rest]
  rw [if_neg (by omega), if_pos trivial, if_neg (by omega), if_neg (by omega), if_pos hq, if_neg (by omega), Nat.add_assoc,
    word_id p rest hq]

include h hlen in
theorem getId_bytes_zero (hno : ¬ (0 < p.qos ∧ (p.bytes.length < length ∨ p.data ≠ []))) :
    mqttGetId (p.bytes ++ rest) length = 0 := by
  have hl := length_bytes p
  have hb := length_body p
  have hi := length_idBytes p
  unfold mqttGetId
  rw [remaining_bytes h rest hlen, getQos_bytes h rest, getType_bytes]
  simp only [word_topic h rest]
  by_cases hq : 0 < p.qos
  · have hend : length ≤ headerSize p.body + 2 + p.topic.length + 2 := by
      rw [if_pos hq] at hi
      rw [not_and, not_or, Ne, not_not] at hno
      obtain ⟨hle, hdata⟩ := hno hq
      rw [hdata, List.length_nil] at hb
      omega
    rw [if_pos hend]
    split_ifs <;> rfl
  · rw [if_neg hq, if_pos trivial]
    split_ifs <;> rfl

end Read

end Publish

/-- An id assigned is not 0. -/
theorem nextMessageId_ne_zero (conn : MqttConnection) : nextMessageId conn ≠ 0 := by
  unfold nextMessageId
  split
  · next h =>
    have h2 : conn.messageId + 2 = (conn.messageId + 1) + 1 := by rw [UInt16.add_assoc]; rfl
    rw [h2, h]
    decide
  · next h => exact h

theorem appendMessageId_fits {conn : MqttConnection} {body : List UInt8}
    (h : ¬ conn.bufferLength < MQTT_MAX_FIXED_HEADER_SIZE + body.length + 2) :
    appendMessageId conn body 0 =
      (nextMessageId conn, { conn with messageId := nextMessageId conn },
        body ++ wordBytes (nextMessageId conn).toNat) := by
  unfold appendMessageId
  simp only [↓reduceIte]
  exact if_neg h

theorem appendMessageId_fails {conn : MqttConnection} {body : List UInt8} (id : UInt16)
    (h : conn.bufferLength < MQTT_MAX_FIXED_HEADER_SIZE + body.length + 2) : (appendMessageId conn body id).1 = 0 := by
  unfold appendMessageId
  by_cases hid : id = 0
  · simp only [if_pos hid, if_pos h]
  · simp only [if_neg hid, if_pos h]

theorem publishData_eq {conn : MqttConnection} {body data : List UInt8} {id : UInt16} {qos retain : ℕ}
    (hm : (publishData conn body data id qos retain).1 ≠ []) :
    (publishData conn body data id qos retain).1 =
        finiMessage (body ++ data) MQTT_MSG_TYPE_PUBLISH 0 qos retain ∧
      (publishData conn body data id qos retain).2.1 = some id ∧
      MQTT_MAX_FIXED_HEADER_SIZE + (body ++ data).length ≤ conn.bufferLength := by
  revert hm
  unfold publishData
  by_cases hd : conn.bufferLength < MQTT_MAX_FIXED_HEADER_SIZE + body.length + data.length
  · rw [if_pos hd]
    exact fun hm => absurd rfl hm
  · rw [if_neg hd, List.length_append]
    exact fun _ => ⟨rfl, rfl, by omega⟩

/-- What `mqtt_msg_publish` builds, if it does not fail. -/
theorem mqttMsgPublish_eq {conn : MqttConnection} {topic data : List UInt8} {qos retain : ℕ}
    (hm : (mqttMsgPublish conn topic data qos retain).1 ≠ []) :
    (mqttMsgPublish conn topic data qos retain).1 =
        Publish.bytes ⟨topic, data, 0, qos, retain, nextMessageId conn⟩ ∧
      (mqttMsgPublish conn topic data qos retain).2.1 = some (if 0 < qos then nextMessageId conn else 0) ∧
      topic ≠ [] ∧
      MQTT_MAX_FIXED_HEADER_SIZE + (Publish.body ⟨topic, data, 0, qos, retain, nextMessageId conn⟩).length ≤
        conn.bufferLength := by
  have hbody : (Publish.body ⟨topic, data, 0, qos, retain, nextMessageId conn⟩) =
      (wordBytes topic.length ++ topic) ++ ((if 0 < qos then wordBytes (nextMessageId conn).toNat else []) ++ data) :=
    (List.append_assoc ..).symm
  revert hm
  unfold mqttMsgPublish Publish.bytes
  rw [hbody]
  by_cases ht : topic = []
  · rw [if_pos ht]
    exact fun hm => absurd rfl hm
  rw [if_neg ht]
  unfold appendString
  by_cases hs : conn.bufferLength < MQTT_MAX_FIXED_HEADER_SIZE + ([] : List UInt8).length + topic.length + 2
  · rw [if_pos hs]
    exact fun hm => absurd rfl hm
  rw [if_neg hs]
  simp only [List.nil_append]
  by_cases hq : 0 < qos
  · rw [if_pos hq, if_pos hq, if_pos hq]
    by_cases hid : conn.bufferLength < MQTT_MAX_FIXED_HEADER_SIZE + (wordBytes topic.length ++ topic).length + 2
    · intro hm
      have hzero : (appendMessageId conn (wordBytes topic.length ++ topic) 0).1 = 0 := appendMessageId_fails 0 hid
      exact absurd (congrArg Prod.fst (if_pos hzero)) hm
    · have happ : appendMessageId conn
          (UInt8.ofNat (topic.length >>> 8) :: UInt8.ofNat (topic.length &&& 0xff) :: topic) 0 = _ :=
        appendMessageId_fits hid
      rw [happ]
      simp only [if_neg (nextMessageId_ne_zero conn)]
      intro hm
      obtain ⟨hbytes, hstored, hle⟩ := publishData_eq hm
      rw [List.append_assoc] at hbytes hle
      exact ⟨hbytes, hstored, ht, hle⟩
  · rw [if_neg hq, if_neg hq, if_neg hq]
    intro hm
    obtain ⟨hbytes, hstored, hle⟩ := publishData_eq hm
    exact ⟨hbytes, hstored, ht, hle⟩

/-- The bytes that a reader found. -/
def bytesAt (buffer : List UInt8) (found : Option (ℕ × ℕ)) : Option (List UInt8) :=
  found.map fun l => (buffer.drop l.1).take l.2

theorem Publish.bytesAt_topic {p : Publish} (h : p.Ok) (rest : List UInt8) {length : ℕ} (hlen : p.bytes.length ≤ length)
    (ht : p.topic ≠ []) : bytesAt (p.bytes ++ rest) (mqttGetPublishTopic (p.bytes ++ rest) length) = some p.topic := by
  rw [p.getTopic_bytes h rest hlen ht, bytesAt, Option.map_some, p.drop_topic rest, List.take_left]

theorem Publish.bytesAt_data {p : Publish} (h : p.Ok) (rest : List UInt8) {length : ℕ} (hlen : p.bytes.length ≤ length) :
    (bytesAt (p.bytes ++ rest) (mqttGetPublishData (p.bytes ++ rest) length)).getD [] = p.data := by
  obtain hsome | ⟨hnone, hdata⟩ := p.getData_bytes h rest hlen
  · rw [hsome, bytesAt, Option.map_some, p.drop_data rest, List.take_left, Option.getD_some]
  · rw [hnone, hdata]
    rfl

/-- **A PUBLISH is read back**, whatever bytes follow it. Its id is 0 exactly without a
quality of service, and is not seen if the message has no data and ends the buffer. -/
theorem publish_read {conn : MqttConnection} {topic data : List UInt8} {qos retain : ℕ} (hbuf : conn.bufferLength ≤ 16386)
    (hq : qos < 4) (hm : (mqttMsgPublish conn topic data qos retain).1 ≠ []) (rest : List UInt8) {length : ℕ}
    (hlen : (mqttMsgPublish conn topic data qos retain).1.length ≤ length) :
    let m := (mqttMsgPublish conn topic data qos retain).1
    mqttGetType (m ++ rest) = MQTT_MSG_TYPE_PUBLISH ∧ mqttGetQos (m ++ rest) = qos ∧
      mqttGetRetain (m ++ rest) = retain % 2 ∧ mqttGetTotalLength (m ++ rest) length = m.length ∧
      bytesAt (m ++ rest) (mqttGetPublishTopic (m ++ rest) length) = some topic ∧
      (bytesAt (m ++ rest) (mqttGetPublishData (m ++ rest) length)).getD [] = data ∧
      ∃ id, (mqttMsgPublish conn topic data qos retain).2.1 = some id ∧ (id = 0 ↔ qos = 0) ∧
        mqttGetId (m ++ rest) length = if m.length < length ∨ data ≠ [] then id.toNat else 0 := by
  obtain ⟨hbytes, hid, ht, hle⟩ := mqttMsgPublish_eq hm
  generalize hp : (⟨topic, data, 0, qos, retain, nextMessageId conn⟩ : Publish) = p at hbytes hle
  have hok : p.Ok := by
    unfold MQTT_MAX_FIXED_HEADER_SIZE at hle
    exact ⟨by rw [← hp]; exact hq, by omega⟩
  simp only [hbytes, hid] at hlen ⊢
  refine ⟨p.getType_bytes rest, ?_, ?_, p.getTotalLength_bytes hok rest hlen, ?_, ?_, _, rfl, ?_, ?_⟩
  · rw [p.getQos_bytes hok rest, ← hp]
  · rw [Publish.bytes, getRetain_finiMessage, ← hp]
  · rw [p.bytesAt_topic hok rest hlen (by rw [← hp]; exact ht), ← hp]
  · rw [p.bytesAt_data hok rest hlen, ← hp]
  · by_cases hq0 : 0 < qos
    · rw [if_pos hq0]
      exact iff_of_false (nextMessageId_ne_zero conn) (by omega)
    · rw [if_neg hq0]
      exact iff_of_true rfl (by omega)
  · have hpq : p.qos = qos := by rw [← hp]
    have hpd : p.data = data := by rw [← hp]
    by_cases hq0 : 0 < qos
    · rw [if_pos hq0]
      by_cases hend : p.bytes.length < length ∨ data ≠ []
      · rw [if_pos hend, p.getId_bytes hok rest hlen (by rw [hpq]; exact hq0) (by rw [hpd]; exact hend), ← hp]
      · rw [if_neg hend, p.getId_bytes_zero hok rest hlen (by rw [hpd]; exact fun hc => hend hc.2)]
    · rw [if_neg hq0, p.getId_bytes_zero hok rest hlen (by rw [hpq]; exact fun hc => hq0 hc.1)]
      split <;> rfl

/-- An answer to a message with an id: its type, and the id. -/
theorem ack_read {conn : MqttConnection} (hbuf : 5 ≤ conn.bufferLength) (type qos : ℕ) {id : UInt16} (hid : id ≠ 0) :
    mqttMsgAck type qos conn id = (finiMessage (wordBytes id.toNat) type 0 qos 0, conn) := by
  have hfit : ¬ conn.bufferLength < MQTT_MAX_FIXED_HEADER_SIZE + ([] : List UInt8).length + 2 := by
    unfold MQTT_MAX_FIXED_HEADER_SIZE
    rw [List.length_nil]
    omega
  have happ : appendMessageId conn [] id = (id, conn, wordBytes id.toNat) := by
    unfold appendMessageId
    simp only [if_neg hid]
    exact if_neg hfit
  unfold mqttMsgAck
  rw [happ]
  exact if_neg hid

/-- The topic `"a"` without data, before another byte. -/
theorem publish_read_empty :
    mqttGetTotalLength ((mqttMsgPublish ⟨0, 1024⟩ [97] [] 1 0).1 ++ [0]) 8 =
      (mqttMsgPublish ⟨0, 1024⟩ [97] [] 1 0).1.length :=
  (@publish_read ⟨0, 1024⟩ [97] [] 1 0 (by decide) (by decide) (by decide) [0] 8 (by decide)).2.2.2.1

end MqttMsg
end Netacademia
