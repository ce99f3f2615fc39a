/-
# The MQTT client

`examples/esp_mqtt_proj/mqtt/mqtt.c`: what the client does with what it receives, and
when it sends what is queued. The connection may be secured or not; the client does the
same with both.

* `recv_ends_iff`: the receive handler goes on with the next PUBLISH of a segment, and
  ends, except exactly where it comes to a PUBLISH whose length, an `int`, is a multiple
  of 65536: the length is kept in 16 bits, and it stays with that PUBLISH for ever.
* `recv_publishes`: a segment of PUBLISHs is delivered in order, and each of them is
  answered.
* `never_stalled_iff`: a message that can be sent is waited for by nobody, unless the
  time for sending it runs out: the timer does not post the task.
-/
import Netacademia.MqttQueue
import Netacademia.MqttMsg

namespace Netacademia
namespace MqttClient

open Lib MqttQueue MqttMsg

/-- `tConnState` -/
inductive ConnState
  | wifiInit | wifiConnecting | wifiConnectingError | wifiConnected | dnsResolve | tcpDisconnecting | tcpDisconnected
  | tcpReconnectDisconnecting | tcpReconnectReq | tcpReconnect | tcpConnecting | tcpConnectingError | tcpConnected
  | mqttConnectSend | mqttConnectSending | mqttSubscibeSend | mqttSubscibeSending | mqttData | mqttKeepaliveSend
  | mqttPublishRecv | mqttPublishing | mqttDeleting | mqttDeleted
  deriving DecidableEq, Repr

def MQTT_SEND_TIMOUT : ℕ := 5

def MQTT_RECONNECT_TIMEOUT : ℕ := 5

structure Client where
  connState : ConnState
  keepAliveTick : ℕ
  reconnectTick : ℕ
  sendTimeout : ℕ
  /-- `connect_info.keepalive` -/
  keepalive : ℕ
  pendingMsgType : ℕ
  pendingMsgId : ℕ
  mqttConnection : MqttConnection
  inBuffer : List UInt8
  msgQueue : RingBuf
  /-- `mqttTimer` is armed. -/
  mqttTimer : Bool
  /-- `MQTT_Task` has an event; there is room for one. -/
  posted : Bool

/-- `system_os_post(MQTT_TASK_PRIO, 0, client)` -/
def Client.post (client : Client) : Client := { client with posted := true }

/-- `MQTT_InitConnection` and `MQTT_InitClient`. -/
def Client.init (keepalive : ℕ) : Client where
  connState := .wifiInit
  keepAliveTick := 0
  reconnectTick := 0
  sendTimeout := 0
  keepalive := keepalive
  pendingMsgType := 0
  pendingMsgId := 0
  mqttConnection := ⟨0, MQTT_BUF_SIZE⟩
  inBuffer := List.replicate MQTT_BUF_SIZE 0
  msgQueue := queueInit ⟨[], 0, 0, 0, 0⟩ QUEUE_BUFFER_SIZE
  mqttTimer := false
  posted := true

/-! ### What is received -/

/-- The topic that `dataCb` gets, if it is not `NULL`, and the data. -/
structure Delivery where
  topic : Option (List UInt8)
  data : List UInt8
  deriving DecidableEq, Repr

def deliverPublish (message : List UInt8) (length : ℕ) : Delivery :=
  ⟨bytesAt message (mqttGetPublishTopic message length), (bytesAt message (mqttGetPublishData message length)).getD []⟩

/-- An answer is queued; if it does not fit, nothing more is done about it. -/
def Client.answer (client : Client) (message : List UInt8) (conn : MqttConnection) : Client :=
  { client with msgQueue := (queuePuts client.msgQueue message).2, mqttConnection := conn }

/-- The switch over the type of a message, in the states where there is a session. -/
def receive (client : Client) (msgType msgQos : ℕ) (msgId : UInt16) : Client :=
  let conn := client.mqttConnection
  if msgType = MQTT_MSG_TYPE_PUBLISH then
    if msgQos = 1 then client.answer (mqttMsgPuback conn msgId).1 (mqttMsgPuback conn msgId).2
    else if msgQos = 2 then client.answer (mqttMsgPubrec conn msgId).1 (mqttMsgPubrec conn msgId).2
    else client
  else if msgType = MQTT_MSG_TYPE_PUBREC then
    client.answer (mqttMsgPubrel conn msgId).1 (mqttMsgPubrel conn msgId).2
  else if msgType = MQTT_MSG_TYPE_PUBREL then
    client.answer (mqttMsgPubcomp conn msgId).1 (mqttMsgPubcomp conn msgId).2
  else if msgType = MQTT_MSG_TYPE_PINGREQ then client.answer mqttMsgPingresp conn
  else client

/-- `message_length`, 16 bits. -/
def messageLength (buffer : List UInt8) (length : ℕ) : ℕ := (mqttGetTotalLength buffer length % 65536).toNat

/-- There is a session: messages are taken. -/
def Client.Session (client : Client) : Prop :=
  client.connState = .mqttData ∨ client.connState = .mqttKeepaliveSend

instance (client : Client) : Decidable client.Session := inferInstanceAs (Decidable (_ ∨ _))

/-- What is copied into `in_buffer`. -/
def Client.fill (client : Client) (pdata : List UInt8) : Client :=
  { client with inBuffer := pdata ++ client.inBuffer.drop pdata.length }

/-- `mqtt_tcpclient_recv` from `READPACKET` on; `none` if it has not ended after `n`
messages. With the client there is returned what was delivered. -/
def readPacket : ℕ → Client → List UInt8 → Option (Client × List Delivery)
  | 0, _, _ => none
  | n + 1, client, pdata =>
    if pdata.length < MQTT_BUF_SIZE ∧ 0 < pdata.length then
      let client := client.fill pdata
      let msgType := mqttGetType client.inBuffer
      let msgQos := mqttGetQos client.inBuffer
      let msgId := UInt16.ofNat (mqttGetId client.inBuffer client.inBuffer.length)
      if client.connState = .mqttConnectSending then
        if msgType = MQTT_MSG_TYPE_CONNACK ∧ client.pendingMsgType = MQTT_MSG_TYPE_CONNECT then
          some ({ client with connState := .mqttData }.post, [])
        else some (client.post, [])
      else if client.Session then
        let length := messageLength client.inBuffer pdata.length
        let client' := receive client msgType msgQos msgId
        if msgType = MQTT_MSG_TYPE_PUBLISH then
          let delivery := deliverPublish client.inBuffer pdata.length
          if length < pdata.length then
            (readPacket n client' (pdata.drop length)).map fun res => (res.1, delivery :: res.2)
          else some (client'.post, [delivery])
        else some (client'.post, [])
      else some (client.post, [])
    else some (client.post, [])

def mqttTcpclientRecv (n : ℕ) (client : Client) (pdata : List UInt8) : Option (Client × List Delivery) :=
  readPacket n { client with keepAliveTick := 0 } pdata

/-! ### The end of the receive handler -/

section Fill

variable (client : Client) (pdata : List UInt8)

theorem getType_fill (h : 0 < pdata.length) : mqttGetType (client.fill pdata).inBuffer = mqttGetType pdata := by
  unfold mqttGetType Client.fill
  rw [List.getD_eq_getElem?_getD, List.getElem?_append_left h, ← List.getD_eq_getElem?_getD]

theorem messageLength_fill :
    messageLength (client.fill pdata).inBuffer pdata.length = messageLength pdata pdata.length := by
  unfold messageLength mqttGetTotalLength remaining Client.fill
  rw [List.take_left, List.take_length]

end Fill

theorem receive_connState (client : Client) (msgType msgQos : ℕ) (msgId : UInt16) :
    (receive client msgType msgQos msgId).connState = client.connState := by
  unfold receive
  split_ifs <;> rfl

/-- The handler goes on behind the message at the front. -/
structure GoesOn (pdata : List UInt8) : Prop where
  short : pdata.length < MQTT_BUF_SIZE
  publish : mqttGetType pdata = MQTT_MSG_TYPE_PUBLISH
  more : messageLength pdata pdata.length < pdata.length

/-- What the handler comes to in a segment. -/
inductive Reaches : List UInt8 → List UInt8 → Prop
  | here (pdata : List UInt8) : Reaches pdata pdata
  | behind {pdata rest : List UInt8} : GoesOn pdata → Reaches (pdata.drop (messageLength pdata pdata.length)) rest →
      Reaches pdata rest

theorem readPacket_ends {client : Client} {pdata : List UInt8} (h : ¬ (client.Session ∧ GoesOn pdata)) (n : ℕ) :
    readPacket (n + 1) client pdata ≠ none := by
  unfold readPacket
  by_cases hlen : pdata.length < MQTT_BUF_SIZE ∧ 0 < pdata.length
  · rw [if_pos hlen]
    simp only [getType_fill client pdata hlen.2, messageLength_fill]
    by_cases hc : (client.fill pdata).connState = .mqttConnectSending
    · rw [if_pos hc]
      split_ifs <;> exact Option.some_ne_none _
    · rw [if_neg hc]
      by_cases hs : (client.fill pdata).Session
      · rw [if_pos hs]
        by_cases ht : mqttGetType pdata = MQTT_MSG_TYPE_PUBLISH
        · rw [if_pos ht, if_neg fun hmore => h ⟨hs, hlen.1, ht, hmore⟩]
          exact Option.some_ne_none _
        · rw [if_neg ht]
          exact Option.some_ne_none _
      · rw [if_neg hs]
        exact Option.some_ne_none _
  · rw [if_neg hlen]
    exact Option.some_ne_none _

/-- A round with a message behind. -/
theorem readPacket_goesOn {client : Client} {pdata : List UInt8} (hs : client.Session) (h : GoesOn pdata) :
    ∃ client' delivery, client'.Session ∧ ∀ n, readPacket (n + 1) client pdata =
      (readPacket n client' (pdata.drop (messageLength pdata pdata.length))).map
        fun res => (res.1, delivery :: res.2) := by
  have hpos : 0 < pdata.length := Nat.lt_of_le_of_lt (Nat.zero_le _) h.more
  have hs' : (client.fill pdata).Session := hs
  have hc : (client.fill pdata).connState ≠ .mqttConnectSending := by
    obtain hs | hs := hs' <;> rw [hs] <;> decide
  refine ⟨receive (client.fill pdata) (mqttGetType pdata) (mqttGetQos (client.fill pdata).inBuffer)
    (UInt16.ofNat (mqttGetId (client.fill pdata).inBuffer (client.fill pdata).inBuffer.length)),
    deliverPublish (client.fill pdata).inBuffer pdata.length, ?_, fun n => ?_⟩
  · unfold Client.Session
    rw [receive_connState]
    exact hs'
  · rw [readPacket, if_pos ⟨h.short, hpos⟩]
    simp only [getType_fill client pdata hpos, messageLength_fill]
    rw [if_neg hc, if_pos hs', if_pos h.publish, if_pos h.more]

/-- A message of length 0, as the client counts, is taken again and again. -/
theorem readPacket_stays {client : Client} {pdata : List UInt8} (hs : client.Session) (h : GoesOn pdata)
    (hzero : messageLength pdata pdata.length = 0) (n : ℕ) : readPacket n client pdata = none := by
  induction n generalizing client with
  | zero => rfl
  | succ n ih =>
    obtain ⟨client', delivery, hs', hstep⟩ := readPacket_goesOn hs h
    rw [hstep, hzero, List.drop_zero, ih hs']
    rfl

/-- **The receive handler ends**, except where it comes to a PUBLISH of length 0. -/
theorem recv_ends_iff (client : Client) (pdata : List UInt8) :
    (∃ n, mqttTcpclientRecv n client pdata ≠ none) ↔
      ¬ (client.Session ∧ ∃ rest, Reaches pdata rest ∧ GoesOn rest ∧ messageLength rest rest.length = 0) := by
  unfold mqttTcpclientRecv
  have hsession : client.Session ↔ Client.Session { client with keepAliveTick := 0 } := Iff.rfl
  rw [hsession]
  generalize { client with keepAliveTick := 0 } = client
  constructor
  · rintro ⟨n, hn⟩ ⟨hs, rest, hreach, hon, hzero⟩
    refine hn ?_
    clear hn hsession
    induction hreach generalizing client n with
    | here pdata => exact readPacket_stays hs hon hzero n
    | behind hgo _ ih =>
      cases n with
      | zero => rfl
      | succ n =>
        obtain ⟨client', delivery, hs', hstep⟩ := readPacket_goesOn hs hgo
        rw [hstep, ih client' n hs' hon hzero]
        rfl
  · intro hno
    clear hsession
    -- each message that is gone behind makes the rest shorter
    induction hlen : pdata.length using Nat.strong_induction_on generalizing client pdata with
    | _ len ih =>
      by_cases hgo : client.Session ∧ GoesOn pdata
      · obtain ⟨hs, hgo⟩ := hgo
        obtain ⟨client', delivery, hs', hstep⟩ := readPacket_goesOn hs hgo
        have hpos : 0 < messageLength pdata pdata.length := by
          by_contra hc
          exact hno ⟨hs, pdata, .here pdata, hgo, Nat.eq_zero_of_not_pos hc⟩
        have hshort : (pdata.drop (messageLength pdata pdata.length)).length < len := by
          have := hgo.more
          rw [List.length_drop]
          omega
        have hno' : ¬ (client'.Session ∧ ∃ rest, Reaches (pdata.drop (messageLength pdata pdata.length)) rest ∧
            GoesOn rest ∧ messageLength rest rest.length = 0) := by
          rintro ⟨-, rest, hreach, hon, hzero⟩
          exact hno ⟨hs, rest, .behind hgo hreach, hon, hzero⟩
        obtain ⟨n, hn⟩ := ih _ hshort _ client' hno' rfl
        refine ⟨n + 1, ?_⟩
        rw [hstep, Ne, Option.map_eq_none_iff]
        exact hn
      · exact ⟨1, readPacket_ends hgo 0⟩

/-- 65532 bytes to come behind a header of four. -/
example : messageLength [0x30, 0xFC, 0xFF, 0x03, 0] 5 = 0 := by decide

/-- The sixth byte of a length is shifted by 35, that is by 3. -/
example : messageLength [0x30, 0xF1, 0xFF, 0x83, 0x80, 0x80, 0x01, 0] 8 = 0 := by decide

/-! ### Segments of PUBLISHs -/

/-- The answer to a PUBLISH: its quality of service asks for a PUBACK, a PUBREC, or none. -/
def answers (p : Publish) : List (List UInt8) :=
  if p.qos = 1 then [finiMessage (wordBytes p.id.toNat) MQTT_MSG_TYPE_PUBACK 0 0 0]
  else if p.qos = 2 then [finiMessage (wordBytes p.id.toNat) MQTT_MSG_TYPE_PUBREC 0 0 0]
  else []

/-- Messages are put into the queue, those that fit. -/
def putAll (msgQueue : RingBuf) (messages : List (List UInt8)) : RingBuf :=
  messages.foldl (fun msgQueue message => (queuePuts msgQueue message).2) msgQueue

/-- A PUBLISH as the protocol has it. -/
structure Sendable (p : Publish) : Prop where
  ok : p.Ok
  topic_ne : p.topic ≠ []
  id_ne : 0 < p.qos → p.id ≠ 0

/-- A client that takes messages. -/
structure Client.Ready (client : Client) : Prop where
  session : client.Session
  inBuffer : client.inBuffer.length = MQTT_BUF_SIZE
  conn : client.mqttConnection.bufferLength = MQTT_BUF_SIZE

theorem Client.Ready.not_sending {client : Client} (h : client.Ready) : client.connState ≠ .mqttConnectSending := by
  obtain hs | hs := h.session <;> rw [hs] <;> decide

theorem Client.Ready.fill {client : Client} (h : client.Ready) {pdata : List UInt8} (hlen : pdata.length < MQTT_BUF_SIZE) :
    (client.fill pdata).Ready := by
  refine ⟨h.session, ?_, h.conn⟩
  unfold Client.fill
  rw [List.length_append, List.length_drop, h.inBuffer]
  omega

/-- A PUBLISH is answered, and nothing else about the client changes. -/
theorem receive_publish {client : Client} (h : client.Ready) {p : Publish} (hp : Sendable p) :
    receive client MQTT_MSG_TYPE_PUBLISH p.qos p.id =
      { client with msgQueue := putAll client.msgQueue (answers p) } := by
  have hbuf : 5 ≤ client.mqttConnection.bufferLength := by
    rw [h.conn]
    decide
  unfold receive answers
  rw [if_pos rfl]
  by_cases h1 : p.qos = 1
  · have hack := ack_read hbuf MQTT_MSG_TYPE_PUBACK 0 (hp.id_ne (by omega))
    rw [if_pos h1, if_pos h1, mqttMsgPuback, hack]
    rfl
  · rw [if_neg h1, if_neg h1]
    by_cases h2 : p.qos = 2
    · have hack := ack_read hbuf MQTT_MSG_TYPE_PUBREC 0 (hp.id_ne (by omega))
      rw [if_pos h2, if_pos h2, mqttMsgPubrec, hack]
      rfl
    · rw [if_neg h2, if_neg h2]
      rfl

theorem receive_ready {client : Client} (h : client.Ready) (messages : List (List UInt8)) :
    Client.Ready { client with msgQueue := putAll client.msgQueue messages } := ⟨h.session, h.inBuffer, h.conn⟩

/-- Other messages are answered by one message at most. -/
theorem receive_other (client : Client) {msgType : ℕ} (ht : msgType ≠ MQTT_MSG_TYPE_PUBLISH) (msgQos : ℕ) (msgId : UInt16) :
    ∃ extra : List (List UInt8), extra.length ≤ 1 ∧
      (receive client msgType msgQos msgId).msgQueue = putAll client.msgQueue extra := by
  unfold receive
  rw [if_neg ht]
  split_ifs
  · exact ⟨[_], Nat.le_refl 1, rfl⟩
  · exact ⟨[_], Nat.le_refl 1, rfl⟩
  · exact ⟨[_], Nat.le_refl 1, rfl⟩
  · exact ⟨[], Nat.zero_le 1, rfl⟩

/-- One PUBLISH at the front of a segment. -/
theorem readPacket_publish {client : Client} (h : client.Ready) {p : Publish} (hp : Sendable p) {rest : List UInt8}
    (hlen : (p.bytes ++ rest).length < MQTT_BUF_SIZE) :
    ∃ client', client'.Ready ∧ client'.msgQueue = putAll client.msgQueue (answers p) ∧
      ∀ n, readPacket (n + 1) client (p.bytes ++ rest) =
        if rest = [] then some (client'.post, [⟨some p.topic, p.data⟩])
        else (readPacket n client' rest).map fun res => (res.1, ⟨some p.topic, p.data⟩ :: res.2) := by
  have hbytes := p.length_bytes
  have hhead := headerSize_le p.body
  have hle : p.bytes.length ≤ (p.bytes ++ rest).length := by
    rw [List.length_append]
    omega
  have hpos : 0 < (p.bytes ++ rest).length := by omega
  have hfill := h.fill hlen
  have hbuf : (client.fill (p.bytes ++ rest)).inBuffer =
      p.bytes ++ (rest ++ client.inBuffer.drop (p.bytes ++ rest).length) := List.append_assoc ..
  have hlength : messageLength (p.bytes ++ rest) (p.bytes ++ rest).length = p.bytes.length := by
    have hshort : p.bytes.length < 65536 := Nat.lt_of_le_of_lt hle (Nat.lt_trans hlen (by decide))
    rw [messageLength, p.getTotalLength_bytes hp.ok rest hle]
    omega
  have hdelivery : deliverPublish (client.fill (p.bytes ++ rest)).inBuffer (p.bytes ++ rest).length =
      ⟨some p.topic, p.data⟩ := by
    rw [deliverPublish, hbuf, p.bytesAt_topic hp.ok _ hle hp.topic_ne, p.bytesAt_data hp.ok _ hle]
  have hreceive : receive (client.fill (p.bytes ++ rest)) MQTT_MSG_TYPE_PUBLISH p.qos
      (UInt16.ofNat (mqttGetId (client.fill (p.bytes ++ rest)).inBuffer (client.fill (p.bytes ++ rest)).inBuffer.length)) =
        { client.fill (p.bytes ++ rest) with
          msgQueue := putAll (client.fill (p.bytes ++ rest)).msgQueue (answers p) } := by
    by_cases hq : 0 < p.qos
    · have hid : mqttGetId (client.fill (p.bytes ++ rest)).inBuffer
          (client.fill (p.bytes ++ rest)).inBuffer.length = p.id.toNat := by
        rw [hfill.inBuffer, hbuf]
        exact p.getId_bytes hp.ok _ (by omega) hq (.inl (by omega))
      rw [hid, UInt16.ofNat_toNat]
      exact receive_publish hfill hp
    · have hq0 : p.qos = 0 := by omega
      unfold receive answers
      simp only [hq0, if_true, Nat.zero_ne_one, if_false]
      rfl
  refine ⟨_, receive_ready hfill (answers p), rfl, fun n => ?_⟩
  rw [readPacket, if_pos ⟨hlen, hpos⟩]
  simp only [getType_fill client _ hpos, messageLength_fill, hlength]
  rw [if_neg hfill.not_sending, if_pos hfill.session, p.getType_bytes, if_pos rfl, hdelivery,
    show mqttGetQos (client.fill (p.bytes ++ rest)).inBuffer = p.qos by rw [hbuf, p.getQos_bytes hp.ok], hreceive,
    List.drop_left]
  by_cases hr : rest = []
  · rw [if_pos hr, if_neg (by rw [hr, List.append_nil]; exact Nat.lt_irrefl _)]
  · rw [if_neg hr, if_pos (by rw [List.length_append]; exact Nat.lt_add_of_pos_right (List.length_pos_iff.mpr hr))]

/-- No PUBLISHs are no bytes. -/
theorem flatMap_bytes_eq_nil {ps : List Publish} (h : ps.flatMap Publish.bytes = []) : ps = [] := by
  cases ps with
  | nil => rfl
  | cons p ps =>
    have hp := p.length_bytes
    have hh := headerSize_le p.body
    have hnil : p.bytes = [] := List.flatMap_eq_nil_iff.mp h p List.mem_cons_self
    rw [hnil, List.length_nil] at hp
    omega

/-- Behind the last PUBLISH one message at most is answered. -/
theorem readPacket_tail {client : Client} (h : client.Ready) {tail : List UInt8}
    (htail : tail = [] ∨ mqttGetType tail ≠ MQTT_MSG_TYPE_PUBLISH) (hlen : tail.length < MQTT_BUF_SIZE) (n : ℕ) :
    ∃ client' extra, readPacket (n + 1) client tail = some (client', []) ∧
      client'.msgQueue = putAll client.msgQueue extra ∧ extra.length ≤ 1 ∧ (tail = [] → extra = []) := by
  rw [readPacket]
  by_cases ht : tail = []
  · rw [if_neg fun hc => absurd hc.2 (by rw [ht]; exact Nat.lt_irrefl 0)]
    exact ⟨client.post, [], rfl, rfl, Nat.zero_le 1, fun _ => rfl⟩
  · have hpos : 0 < tail.length := List.length_pos_iff.mpr ht
    have hfill := h.fill hlen
    have hother := htail.resolve_left ht
    obtain ⟨extra, hone, hextra⟩ := receive_other (client.fill tail) hother
      (mqttGetQos (client.fill tail).inBuffer)
      (UInt16.ofNat (mqttGetId (client.fill tail).inBuffer (client.fill tail).inBuffer.length))
    rw [if_pos ⟨hlen, hpos⟩]
    simp only [getType_fill client _ hpos]
    rw [if_neg hfill.not_sending, if_pos hfill.session, if_neg hother]
    exact ⟨_, extra, rfl, hextra, hone, fun hc => absurd hc ht⟩

/-- **A segment of PUBLISHs** is delivered message by message, in order, and each is
answered as its quality of service asks. Of what stands behind them, one message is
looked at, and the rest of the segment is lost. -/
theorem recv_publishes {client : Client} (h : client.Ready) {ps : List Publish} (hps : ∀ p ∈ ps, Sendable p)
    {tail : List UInt8} (htail : tail = [] ∨ mqttGetType tail ≠ MQTT_MSG_TYPE_PUBLISH)
    (hlen : (ps.flatMap Publish.bytes ++ tail).length < MQTT_BUF_SIZE) :
    ∃ client' extra,
      mqttTcpclientRecv (ps.length + 1) client (ps.flatMap Publish.bytes ++ tail) =
        some (client', ps.map fun p => ⟨some p.topic, p.data⟩) ∧
      client'.msgQueue = putAll client.msgQueue (ps.flatMap answers ++ extra) ∧
      extra.length ≤ 1 ∧ (tail = [] → extra = []) := by
  unfold mqttTcpclientRecv
  have hready : Client.Ready { client with keepAliveTick := 0 } := ⟨h.session, h.inBuffer, h.conn⟩
  have hqueue : client.msgQueue = Client.msgQueue { client with keepAliveTick := 0 } := rfl
  rw [hqueue]
  clear h hqueue
  generalize { client with keepAliveTick := 0 } = client at hready
  induction ps generalizing client with
  | nil => exact readPacket_tail hready htail hlen 0
  | cons p ps ih =>
    have hrest (q : Publish) (hq : q ∈ ps) : Sendable q := hps q (List.mem_cons_of_mem p hq)
    rw [List.flatMap_cons, List.append_assoc] at hlen ⊢
    have hshort : (ps.flatMap Publish.bytes ++ tail).length < MQTT_BUF_SIZE := by
      rw [List.length_append] at hlen
      omega
    obtain ⟨client₁, hready₁, hqueue₁, hstep⟩ := readPacket_publish hready (hps p List.mem_cons_self) hlen
    obtain ⟨client', extra, hrun, hqueue, hone, hnone⟩ := ih hrest hshort client₁ hready₁
    rw [List.length_cons, hstep, List.flatMap_cons]
    by_cases hr : ps.flatMap Publish.bytes ++ tail = []
    · -- it was the last one
      have hnil : ps = [] := flatMap_bytes_eq_nil (List.append_eq_nil_iff.mp hr).1
      rw [if_pos hr, hnil]
      refine ⟨client₁.post, [], rfl, ?_, Nat.zero_le 1, fun _ => rfl⟩
      rw [List.flatMap_nil, List.append_nil, List.append_nil]
      exact hqueue₁
    · rw [if_neg hr, hrun]
      refine ⟨client', extra, rfl, ?_, hone, hnone⟩
      rw [hqueue, hqueue₁, putAll, putAll, putAll, ← List.foldl_append, List.append_assoc]

/-- A PUBLISH and a PINGRESP. -/
theorem recv_publishes_pingresp :
    let p : Publish := ⟨[97], [98], 0, 1, 0, 7⟩
    ∃ client' extra, mqttTcpclientRecv 2 { Client.init 120 with connState := .mqttData } (p.bytes ++ [0xD0, 0]) =
        some (client', [⟨some [97], [98]⟩]) ∧
      client'.msgQueue = putAll (Client.init 120).msgQueue ([[0x40, 2, 0, 7]] ++ extra) := by
  have hready : Client.Ready { Client.init 120 with connState := .mqttData } := ⟨.inl rfl, List.length_replicate, rfl⟩
  have hp : Sendable ⟨[97], [98], 0, 1, 0, 7⟩ := ⟨⟨by decide, by decide⟩, by decide, fun _ => by decide⟩
  have htail : ([0xD0, 0] : List UInt8) = [] ∨ mqttGetType [0xD0, 0] ≠ MQTT_MSG_TYPE_PUBLISH := .inr (by decide)
  obtain ⟨client', extra, hrun, hqueue, -⟩ := recv_publishes hready (List.forall_mem_singleton.mpr hp) htail (by decide)
  exact ⟨client', extra, hrun, hqueue⟩

/-! ### What is queued and sent -/

/-- What `dataBuffer` and `isBegin` of the parser hold, which are on the stack. -/
structure Stack where
  dataBuffer : List UInt8
  isBegin : ℕ → UInt8

/-- The end of `MQTT_Publish`, `MQTT_Subscribe`, `MQTT_UnSubscribe` and `MQTT_Ping`. -/
def queueMessage (client : Client) (message : List UInt8) (stack : Stack) : Option (Bool × Client) :=
  (queueing stack.isBegin message (client.msgQueue.size + 1) client.msgQueue stack.dataBuffer).map fun res =>
    if res.1 then (true, { client with msgQueue := res.2 }.post) else (false, { client with msgQueue := res.2 })

/-- The connection and the pending id after a message is built. -/
def Client.built (client : Client) (id : Option UInt16) (conn : MqttConnection) : Client :=
  { client with mqttConnection := conn, pendingMsgId := (id.map UInt16.toNat).getD client.pendingMsgId }

def mqttPublish (client : Client) (topic data : List UInt8) (qos retain : ℕ) (stack : Stack) : Option (Bool × Client) :=
  let res := mqttMsgPublish client.mqttConnection topic data qos retain
  if res.1.length = 0 then some (false, client.built res.2.1 res.2.2)
  else queueMessage (client.built res.2.1 res.2.2) res.1 stack

/-- A message that was not built is queued too, as an empty one. -/
def mqttSubscribe (client : Client) (topic : List UInt8) (qos : ℕ) (stack : Stack) : Option (Bool × Client) :=
  let res := mqttMsgSubscribe client.mqttConnection topic qos
  queueMessage (client.built res.2.1 res.2.2) res.1 stack

def mqttUnSubscribe (client : Client) (topic : List UInt8) (stack : Stack) : Option (Bool × Client) :=
  let res := mqttMsgUnsubscribe client.mqttConnection topic
  queueMessage (client.built res.2.1 res.2.2) res.1 stack

def mqttPing (client : Client) (stack : Stack) : Option (Bool × Client) := queueMessage client mqttMsgPingreq stack

def mqttConnect (client : Client) : Client :=
  { client with keepAliveTick := 0, reconnectTick := 0, mqttTimer := true, connState := .tcpConnecting }

def mqttDisconnect (client : Client) : Client := { client with connState := .tcpDisconnecting, mqttTimer := false }.post

def mqttDeleteClient (client : Client) : Client := { client with connState := .mqttDeleting, mqttTimer := false }.post

/-- `sendOk`: `espconn_send` returns `ESPCONN_OK`. -/
def mqttSendKeepalive (client : Client) (sendOk : Bool) : Client :=
  let client := { client with
    pendingMsgType := mqttGetType mqttMsgPingreq
    pendingMsgId := mqttGetId mqttMsgPingreq mqttMsgPingreq.length
    sendTimeout := MQTT_SEND_TIMOUT }
  if sendOk then { client with keepAliveTick := 0, connState := .mqttData }.post
  else { client with connState := .tcpReconnectDisconnecting }.post

/-- With the client, the message that is sent from the queue. -/
def mqttTask (client : Client) (sendOk : Bool) (stack : Stack) : Client × Option (List UInt8) :=
  match client.connState with
  | .tcpReconnect => (mqttConnect client, none)
  | .mqttKeepaliveSend => (mqttSendKeepalive client sendOk, none)
  | .mqttData =>
    if queueIsEmpty client.msgQueue ∨ client.sendTimeout ≠ 0 then (client, none)
    else
      let got := queueGets client.msgQueue stack.dataBuffer MQTT_BUF_SIZE (stack.isBegin 0)
      match got.1 with
      | none => ({ client with msgQueue := got.2.2 }, none)
      | some dataLen =>
        ({ client with
            msgQueue := got.2.2
            pendingMsgType := mqttGetType got.2.1
            pendingMsgId := mqttGetId got.2.1 dataLen
            sendTimeout := MQTT_SEND_TIMOUT }, some (got.2.1.take dataLen))
  -- a connection is closed, or nothing is done
  | _ => (client, none)

/-- The ticks of a session, or of a connection that is lost. -/
def Client.tick (client : Client) : Client :=
  if client.connState = .mqttData then
    if client.keepalive < client.keepAliveTick + 1 then
      { client with keepAliveTick := client.keepAliveTick + 1, connState := .mqttKeepaliveSend }.post
    else { client with keepAliveTick := client.keepAliveTick + 1 }
  else if client.connState = .tcpReconnectReq then
    if MQTT_RECONNECT_TIMEOUT < client.reconnectTick + 1 then
      { client with reconnectTick := 0, connState := .tcpReconnect }.post
    else { client with reconnectTick := client.reconnectTick + 1 }
  else client

/-- The timer, once a second. -/
def mqttTimer (client : Client) : Client :=
  let client := client.tick
  if 0 < client.sendTimeout then { client with sendTimeout := client.sendTimeout - 1 } else client

def mqttTcpclientSentCb (client : Client) : Client := { client with sendTimeout := 0, keepAliveTick := 0 }.post

def mqttTcpclientDisconCb (client : Client) : Client :=
  let connState : ConnState :=
    if client.connState = .tcpDisconnecting then .tcpDisconnected
    else if client.connState = .mqttDeleting then .mqttDeleted
    else .tcpReconnectReq
  { client with connState := connState }.post

/-- `outbound` is what `mqtt_msg_connect` builds. -/
def mqttTcpclientConnectCb (client : Client) (outbound : List UInt8) : Client :=
  { client with
    mqttConnection := ⟨0, MQTT_BUF_SIZE⟩
    pendingMsgType := mqttGetType outbound
    pendingMsgId := mqttGetId outbound outbound.length
    sendTimeout := MQTT_SEND_TIMOUT
    connState := .mqttConnectSending }.post

def mqttTcpclientReconCb (client : Client) : Client := { client with connState := .tcpReconnectReq }.post

/-- `none`: no address is found; else whether the client had none before. -/
def mqttDnsFound (client : Client) : Option Bool → Client
  | none => { client with connState := .tcpReconnectReq }
  | some true => { client with connState := .tcpConnecting }.post
  | some false => client.post

/-! ### Runs of the client -/

inductive Event
  | publish (topic data : List UInt8) (qos retain : ℕ) (stack : Stack)
  | subscribe (topic : List UInt8) (qos : ℕ) (stack : Stack)
  | unSubscribe (topic : List UInt8) (stack : Stack)
  | ping (stack : Stack)
  | connect
  | disconnect
  | deleteClient
  /-- `MQTT_Task` takes its event. -/
  | task (sendOk : Bool) (stack : Stack)
  | timer
  | recv (pdata : List UInt8)
  | sentCb
  | disconCb
  | connectCb (outbound : List UInt8)
  | reconCb
  | dnsFound (fresh : Option Bool)

/-- A call that does not come back is not a step. -/
def step (client : Client) : Event → Option Client
  | .publish topic data qos retain stack => (mqttPublish client topic data qos retain stack).map Prod.snd
  | .subscribe topic qos stack => (mqttSubscribe client topic qos stack).map Prod.snd
  | .unSubscribe topic stack => (mqttUnSubscribe client topic stack).map Prod.snd
  | .ping stack => (mqttPing client stack).map Prod.snd
  | .connect => some (mqttConnect client)
  | .disconnect => some (mqttDisconnect client)
  | .deleteClient => some (mqttDeleteClient client)
  | .task sendOk stack => if client.posted then some (mqttTask { client with posted := false } sendOk stack).1 else none
  | .timer => if client.mqttTimer then some (mqttTimer client) else none
  | .recv pdata => (mqttTcpclientRecv (pdata.length + 1) client pdata).map Prod.fst
  | .sentCb => some (mqttTcpclientSentCb client)
  | .disconCb => some (mqttTcpclientDisconCb client)
  | .connectCb outbound => some (mqttTcpclientConnectCb client outbound)
  | .reconCb => some (mqttTcpclientReconCb client)
  | .dnsFound fresh => some (mqttDnsFound client fresh)

def machine (keepalive : ℕ) : Machine Client Event := ⟨.init keepalive, step⟩

/-- A message could be sent, and nothing is going to send it. -/
structure Stalled (client : Client) : Prop where
  data : client.connState = .mqttData
  queued : queueIsEmpty client.msgQueue = false
  free : client.sendTimeout = 0
  idle : client.posted = false

/-- The time for sending the last message ends with this tick, with others queued. -/
def RunsOut (client : Client) (e : Event) : Prop :=
  e = .timer ∧ client.connState = .mqttData ∧ client.keepAliveTick + 1 ≤ client.keepalive ∧
    client.sendTimeout = 1 ∧ queueIsEmpty client.msgQueue = false ∧ client.posted = false

/-! ### No message waits for nobody -/

theorem not_stalled_post (client : Client) : ¬ Stalled client.post := fun h => Bool.noConfusion h.idle

theorem not_stalled_of_connState {client : Client} (h : client.connState ≠ .mqttData) : ¬ Stalled client :=
  fun hs => h hs.data

theorem not_stalled_of_empty {client : Client} (h : queueIsEmpty client.msgQueue = true) : ¬ Stalled client :=
  fun hs => Bool.false_ne_true (hs.queued.symm.trans h)

/-- Queueing a message wakes the task, or leaves an empty queue. -/
theorem queueMessage_not_stalled {client client' : Client} {message : List UInt8} {stack : Stack} {ret : Bool}
    (h : queueMessage client message stack = some (ret, client')) : ¬ Stalled client' := by
  obtain ⟨res, hres, he⟩ := Option.map_eq_some_iff.mp h
  obtain ⟨queued, msgQueue⟩ := res
  cases queued with
  | true =>
    obtain rfl := (Prod.mk.inj he).2
    exact not_stalled_post _
  | false =>
    obtain rfl := (Prod.mk.inj he).2
    exact not_stalled_of_empty (queueing_false hres)

theorem readPacket_not_stalled (n : ℕ) {client client' : Client} {pdata : List UInt8} {deliveries : List Delivery}
    (h : readPacket n client pdata = some (client', deliveries)) : ¬ Stalled client' := by
  induction n generalizing client pdata deliveries with
  | zero => exact absurd h.symm (Option.some_ne_none _)
  | succ n ih =>
    unfold readPacket at h
    simp only at h
    split_ifs at h
    · obtain rfl := (Prod.mk.inj (Option.some.inj h)).1
      exact not_stalled_post _
    · obtain rfl := (Prod.mk.inj (Option.some.inj h)).1
      exact not_stalled_post _
    · obtain ⟨res, hres, he⟩ := Option.map_eq_some_iff.mp h
      obtain ⟨rfl, -⟩ := Prod.mk.inj he
      exact ih hres
    · obtain rfl := (Prod.mk.inj (Option.some.inj h)).1
      exact not_stalled_post _
    · obtain rfl := (Prod.mk.inj (Option.some.inj h)).1
      exact not_stalled_post _
    · obtain rfl := (Prod.mk.inj (Option.some.inj h)).1
      exact not_stalled_post _
    · obtain rfl := (Prod.mk.inj (Option.some.inj h)).1
      exact not_stalled_post _

/-- The task leaves a message queued only for as long as another one is being sent. -/
theorem mqttTask_not_stalled (client : Client) (sendOk : Bool) (stack : Stack) :
    ¬ Stalled (mqttTask client sendOk stack).1 := by
  unfold mqttTask
  split
  · exact not_stalled_of_connState ConnState.noConfusion
  · unfold mqttSendKeepalive
    split <;> exact not_stalled_post _
  · by_cases hwait : queueIsEmpty client.msgQueue ∨ client.sendTimeout ≠ 0
    · rw [if_pos hwait]
      exact fun hs => hwait.elim (not_stalled_of_empty · hs) fun hc => hc hs.free
    · rw [if_neg hwait]
      simp only
      split
      · next hnone => exact not_stalled_of_empty (queueGets_none hnone)
      · exact fun hs => Nat.succ_ne_zero _ hs.free
  · next hdata => exact not_stalled_of_connState hdata

theorem mqttTimer_eq (client : Client) :
    mqttTimer client = { client.tick with sendTimeout := client.tick.sendTimeout - 1 } := by
  unfold mqttTimer
  generalize client.tick = client
  by_cases h : 0 < client.sendTimeout
  · exact if_pos h
  · have hsub : client.sendTimeout - 1 = client.sendTimeout := by omega
    rw [hsub]
    exact if_neg h

/-- A tick in a session that is not idle for too long. -/
theorem tick_data {client : Client} (hd : client.connState = .mqttData)
    (hk : client.keepAliveTick + 1 ≤ client.keepalive) :
    client.tick = { client with keepAliveTick := client.keepAliveTick + 1 } := by
  unfold Client.tick
  rw [if_pos hd, if_neg (Nat.not_lt.mpr hk)]

/-- Any other tick leaves the client without a session, or about to send a ping. -/
theorem tick_other {client : Client} (h : ¬ (client.connState = .mqttData ∧ client.keepAliveTick + 1 ≤ client.keepalive)) :
    client.tick.connState ≠ .mqttData := by
  unfold Client.tick
  by_cases hd : client.connState = .mqttData
  · have hk : client.keepalive < client.keepAliveTick + 1 := by
      rw [not_and, Nat.not_le] at h
      exact h hd
    rw [if_pos hd, if_pos hk]
    exact ConnState.noConfusion
  · rw [if_neg hd]
    split_ifs
    · exact ConnState.noConfusion
    · exact hd
    · exact hd

/-- A tick stalls the client only if it lets the time for sending run out. -/
theorem mqttTimer_not_stalled {client : Client} (h : ¬ Stalled client) (hc : ¬ RunsOut client .timer) :
    ¬ Stalled (mqttTimer client) := by
  rw [mqttTimer_eq]
  by_cases hdata : client.connState = .mqttData ∧ client.keepAliveTick + 1 ≤ client.keepalive
  · rw [tick_data hdata.1 hdata.2]
    intro hst
    have hsub : client.sendTimeout - 1 = 0 := hst.free
    by_cases hone : client.sendTimeout = 1
    · exact hc ⟨rfl, hdata.1, hdata.2, hone, hst.queued, hst.idle⟩
    · exact h ⟨hdata.1, hst.queued, by omega, hst.idle⟩
  · exact not_stalled_of_connState (tick_other hdata)

theorem step_not_stalled {client client' : Client} {e : Event} (h : ¬ Stalled client) (hc : ¬ RunsOut client e)
    (hs : step client e = some client') : ¬ Stalled client' := by
  cases e with
  | publish topic data qos retain stack =>
    obtain ⟨⟨ret, c⟩, hres, rfl⟩ := Option.map_eq_some_iff.mp hs
    unfold mqttPublish at hres
    simp only at hres
    split at hres
    · obtain rfl := (Prod.mk.inj (Option.some.inj hres)).2
      exact fun hst => h ⟨hst.data, hst.queued, hst.free, hst.idle⟩
    · exact queueMessage_not_stalled hres
  | subscribe topic qos stack =>
    obtain ⟨⟨ret, c⟩, hres, rfl⟩ := Option.map_eq_some_iff.mp hs
    exact queueMessage_not_stalled hres
  | unSubscribe topic stack =>
    obtain ⟨⟨ret, c⟩, hres, rfl⟩ := Option.map_eq_some_iff.mp hs
    exact queueMessage_not_stalled hres
  | ping stack =>
    obtain ⟨⟨ret, c⟩, hres, rfl⟩ := Option.map_eq_some_iff.mp hs
    exact queueMessage_not_stalled hres
  | connect =>
    obtain rfl := Option.some.inj hs
    exact not_stalled_of_connState ConnState.noConfusion
  | disconnect =>
    obtain rfl := Option.some.inj hs
    exact not_stalled_post _
  | deleteClient =>
    obtain rfl := Option.some.inj hs
    exact not_stalled_post _
  | task sendOk stack =>
    simp only [step, Option.ite_none_right_eq_some, Option.some.injEq] at hs
    obtain ⟨-, rfl⟩ := hs
    exact mqttTask_not_stalled _ sendOk stack
  | timer =>
    simp only [step, Option.ite_none_right_eq_some, Option.some.injEq] at hs
    obtain ⟨-, rfl⟩ := hs
    exact mqttTimer_not_stalled h hc
  | recv pdata =>
    obtain ⟨⟨c, deliveries⟩, hres, rfl⟩ := Option.map_eq_some_iff.mp hs
    exact readPacket_not_stalled _ hres
  | sentCb =>
    obtain rfl := Option.some.inj hs
    exact not_stalled_post _
  | disconCb =>
    obtain rfl := Option.some.inj hs
    exact not_stalled_post _
  | connectCb outbound =>
    obtain rfl := Option.some.inj hs
    exact not_stalled_post _
  | reconCb =>
    obtain rfl := Option.some.inj hs
    exact not_stalled_post _
  | dnsFound fresh =>
    obtain rfl := Option.some.inj hs
    cases fresh with
    | none => exact not_stalled_of_connState ConnState.noConfusion
    | some fresh => cases fresh <;> exact not_stalled_post _

/-- **No message waits for nobody**, in a run, exactly if the time for sending never
runs out while messages are queued and the task is idle. -/
theorem never_stalled_iff (keepalive : ℕ) (es : List Event) :
    (machine keepalive).Throughout (fun client => ¬ Stalled client) (machine keepalive).init es ↔
      (machine keepalive).Along (fun client e => ¬ RunsOut client e) (machine keepalive).init es := by
  refine (machine keepalive).throughout_iff_along (fun _ h => h) (fun client e client' h hc hs => ?_)
    (fun client e client' h hc hs => ?_) ?_ es
  · exact step_not_stalled h hc hs
  · -- the tick itself stalls the client
    obtain ⟨rfl, hd, hk, hone, hqueued, hidle⟩ := not_not.mp hc
    simp only [machine, step, Option.ite_none_right_eq_some, Option.some.injEq] at hs
    obtain ⟨-, rfl⟩ := hs
    rw [mqttTimer_eq, tick_data hd hk]
    exact not_not.mpr ⟨hd, hqueued, congrArg (· - 1) hone, hidle⟩
  · exact not_stalled_of_connState ConnState.noConfusion

end MqttClient
end Netacademia
