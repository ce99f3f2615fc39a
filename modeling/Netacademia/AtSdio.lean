/-
# The SDIO slave of the AT firmware

`driver/sdio_slv.c` and `at_sdio_response` of `examples/at_sdio`. The lists, the interrupt and
`sdio_try_to_load` are those of the driver in `SdioSlv`, with more and larger buffers; but
`sdio_load_data` takes the buffer that it fills out of its list, and disables the interrupt
where it works on the lists. The host reads at any time, and the interrupt is taken wherever
it is enabled.

* `responses_in_order`: the lists stay lists of all the buffers but the one taken out, what the
  host has read and what is in the buffers is what was taken, in its order, and
  `sdio_load_data` counts what it takes.
* `keeps_sending_iff`: the host is always given what there is to send, if and only if no call
  comes to its last test with nothing left in any buffer; only a call can that finds no free
  buffer, when the host then reads them all before the test.
-/
import Netacademia.SdioSlv

namespace Netacademia
namespace AtSdio

open Lib Linked SdioSlv

def RX_BUFFER_SIZE : ℕ := 2048

def RX_BUFFER_NUM : ℕ := 5

/-! ### `sdio_load_data` -/

/-- Where a call of `sdio_load_data` is. -/
inductive Place
  /-- There is none. -/
  | idle
  /-- At the top of the loop, with the data that is left. -/
  | loop (data : List UInt8)
  /-- With a buffer taken out. -/
  | fill (temp_list : Ptr) (data : List UInt8)
  /-- At the last test. -/
  | last

structure State where
  driver : Driver
  /-- The interrupt is enabled. -/
  ena : Bool
  place : Place
  data_len : ℕ
  /-- A null pointer was followed. -/
  failed : Bool
  /-- What `sdio_load_data` took, and what the host has read. -/
  accepted : List UInt8
  delivered : List UInt8
  /-- The data of the last call, and what had been taken before it. -/
  data : List UInt8
  before : List UInt8

/-- `temp_list->next = pHead_Sended; pHead_Sended = temp_list;` -/
def putBack (l : Lists) (temp_list : Ptr) : Lists :=
  { l with next := Function.update l.next temp_list l.pHeadSended, pHeadSended := some temp_list }

/-- The filled buffer goes behind those to send, and is loaded if it is the only one. -/
def putBehind (d : Driver) (temp_list : Ptr) : Option Driver := do
  let lists ← d.lists.send (some temp_list)
  let d' ← if d.lists.pHeadToSend.isNone then sdioTryToLoad RX_BUFFER_SIZE { d with lists := lists }
    else some { d with lists := lists }
  let lists ← d'.lists.setNext d'.lists.pTailToSend none
  some { d' with lists := lists }

/-- The state after a step of the driver, which may fail. -/
def State.after (s : State) : Option Driver → State
  | some d => { s with driver := d }
  | none => { s with failed := true }

/-- The call goes on to where it next enables or disables the interrupt. What it does with
the interrupt enabled is with its own buffer, and with nothing to send no interrupt comes. -/
def exec (s : State) : State :=
  match s.place with
  | .idle => s
  | .loop data =>
    if data = [] then { s with place := .last }
    else
      match s.driver.lists.pHeadSended with
      | none => { s with ena := true, place := .last }
      | some p =>
        let lists := { s.driver.lists with pHeadSended := s.driver.lists.next p }
        { s with driver := { s.driver with lists := lists }, ena := true, place := .fill p data }
  | .fill temp_list data =>
    let left_len := RX_BUFFER_SIZE - (s.driver.buffer temp_list).length
    if data.length < left_len then
      let d := s.driver.store temp_list (s.driver.buffer temp_list ++ data)
      { s with
        driver := { d with lists := putBack d.lists temp_list }
        ena := false
        place := .loop []
        data_len := s.data_len + data.length
        accepted := s.accepted ++ data }
    else
      let d := s.driver.store temp_list (s.driver.buffer temp_list ++ data.take left_len)
      { s.after (putBehind d temp_list) with
        ena := false
        place := .loop (data.drop left_len)
        data_len := s.data_len + left_len
        accepted := s.accepted ++ data.take left_len }
  | .last => { s.after (loadFirst RX_BUFFER_SIZE s.driver) with ena := true, place := .idle }

inductive Event
  /-- `at_sdio_response`, which calls `sdio_load_data`. -/
  | response (data : List UInt8)
  | exec
  /-- The host reads the buffer that is loaded. -/
  | hostRead
  | isr

def step (s : State) : Event → Option State
  | .response data =>
    match s.place with
    | .idle =>
      if data = [] then some s
      else
        some { s with
          data_len := 0
          data := data
          before := s.accepted
          place := if s.driver.lists.pHeadSended.isNone then .idle else .loop data }
    | _ => none
  | .exec => some (exec s)
  | .hostRead =>
    if s.driver.rx.link then some { s with driver := s.driver.hostRead, delivered := s.delivered ++ s.driver.shown }
    else none
  | .isr => if s.ena && s.driver.rx.eof then some (s.after (sdioSlaveIsr RX_BUFFER_SIZE s.driver)) else none

def machine : Machine State Event where
  init :=
    { driver := sdioSlaveInit RX_BUFFER_NUM
      ena := true
      place := .idle
      data_len := 0
      failed := false
      accepted := []
      delivered := []
      data := []
      before := [] }
  step := step

/-! ### A buffer is taken out -/

variable {d : Driver} {ts sd : List Ptr} {p : Ptr}

theorem size_pos : 0 < RX_BUFFER_SIZE := Nat.succ_pos 2047

/-- `p` is out of the lists, and only it may have bytes that are not to send yet. -/
structure Out (d : Driver) (ts sd : List Ptr) (p : Ptr) : Prop where
  sending : d.Sending RX_BUFFER_SIZE ts sd
  notMem : p ∉ ts ++ sd
  /-- The pointer to the last free buffer is stale, but it is `p`. -/
  last : sd = [] → d.lists.pTailSended = some p
  room : (d.buffer p).length < RX_BUFFER_SIZE
  empty : ∀ q ∈ sd, d.buffer q = []

/-- The first free buffer is taken out. -/
theorem out_of_inv (h : d.Inv RX_BUFFER_SIZE ts (p :: sd)) :
    Out { d with lists := { d.lists with pHeadSended := d.lists.next p } } ts sd p := by
  have hl := h.filled.lists
  have hp : p ∉ ts ++ sd := by
    rw [List.mem_append, not_or]
    exact ⟨fun hmem => hl.apart p hmem List.mem_cons_self, (List.nodup_cons.mp hl.sended.nodup).1⟩
  have hpop : IsQueue d.lists.next (d.lists.next p) d.lists.pTailSended sd := hl.sended.pop
  have hroom : ∀ q ∈ sd, (d.buffer q).length < RX_BUFFER_SIZE := fun q hq =>
    h.filled.room q (List.mem_cons_of_mem p hq)
  refine ⟨⟨⟨⟨hl.toSend, hpop, fun q hq hmem => hl.apart q hq (List.mem_cons_of_mem p hmem)⟩, h.filled.fits, hroom,
    fun q hq => h.filled.rest q (List.mem_of_mem_tail hq)⟩, h.sent, ?_⟩, hp, ?_,
    h.filled.room p List.mem_cons_self, h.filled.rest⟩
  · exact h.mode.imp (fun hgo => hgo.of_eq rfl fun _ _ => rfl) id
  · rintro rfl
    exact hl.sended.last p rfl

/-- What is written to the buffer does not concern the others. -/
theorem sending_store (h : d.Sending RX_BUFFER_SIZE ts sd) (hp : p ∉ ts ++ sd) (bytes : List UInt8) :
    (d.store p bytes).Sending RX_BUFFER_SIZE ts sd := by
  have heq : ∀ q ∈ ts ++ sd, (d.store p bytes).buffer q = d.buffer q := fun q hq =>
    buffer_store_of_ne (ne_of_mem_of_not_mem hq hp) d bytes
  refine ⟨⟨h.filled.lists, ?_, ?_, ?_⟩, ?_, ?_⟩
  · intro q hq
    rw [heq q (List.mem_append_left sd hq)]
    exact h.filled.fits q hq
  · intro q hq
    rw [heq q (List.mem_append_right ts hq)]
    exact h.filled.room q hq
  · intro q hq
    rw [heq q (List.mem_append_right ts (List.mem_of_mem_tail hq))]
    exact h.filled.rest q hq
  · intro q hq
    rw [heq q (List.mem_append_left sd (List.mem_of_mem_tail hq))]
    exact h.sent q hq
  · exact h.mode.imp (fun hgo => hgo.of_eq rfl fun q hq => heq q (List.mem_append_left sd hq)) id

theorem Out.store (h : Out d ts sd p) {bytes : List UInt8} (hb : bytes.length < RX_BUFFER_SIZE) :
    Out (d.store p bytes) ts sd p where
  sending := sending_store h.sending h.notMem bytes
  notMem := h.notMem
  last := h.last
  room := by rwa [buffer_store_self]
  empty := by
    intro q hq
    rw [buffer_store_of_ne (ne_of_mem_of_not_mem (List.mem_append_right ts hq) h.notMem)]
    exact h.empty q hq

/-- The buffer is put back. -/
theorem Out.putBack (h : Out d ts sd p) :
    Driver.Sending RX_BUFFER_SIZE { d with lists := putBack d.lists p } ts (p :: sd) := by
  have hp := h.notMem
  rw [List.mem_append, not_or] at hp
  have hl := h.sending.filled.lists
  refine ⟨⟨⟨hl.toSend.update hp.1 _, hl.sended.cons hp.2 h.last, ?_⟩, h.sending.filled.fits, ?_, h.empty⟩,
    h.sending.sent, ?_⟩
  · intro q hq hmem
    rcases List.mem_cons.mp hmem with rfl | hmem
    · exact hp.1 hq
    · exact hl.apart q hq hmem
  · intro q hq
    rcases List.mem_cons.mp hq with rfl | hq
    · exact h.room
    · exact h.sending.filled.room q hq
  · exact h.sending.mode.imp (fun hgo => hgo.of_eq rfl fun _ _ => rfl) id

/-- The lists once the filled buffer is behind those to send. -/
theorem send_filled (h : d.Sending RX_BUFFER_SIZE ts sd) (hp : p ∉ ts ++ sd)
    (hb : (d.buffer p).length = RX_BUFFER_SIZE) : ∃ next' head',
      d.lists.send (some p) = some { d.lists with next := next', pHeadToSend := head', pTailToSend := some p } ∧
      Driver.Filled RX_BUFFER_SIZE { d with
        lists := { d.lists with
          next := Function.update next' p none, pHeadToSend := head', pTailToSend := some p } } (ts ++ [p]) sd := by
  rw [List.mem_append, not_or] at hp
  have hl := h.filled.lists
  obtain ⟨next', head', hsend, -, hq, hframe⟩ := Lists.send_is hl.toSend hp.1
  refine ⟨next', head', hsend, ⟨hq, hframe _ _ _ hl.sended hl.apart hp.2, ?_⟩, ?_, h.filled.room, h.filled.rest⟩
  · intro q hq
    rcases List.mem_append.mp hq with hq | hq
    · exact hl.apart q hq
    · rw [List.mem_singleton.mp hq]
      exact hp.2
  · intro q hq
    rcases List.mem_append.mp hq with hq | hq
    · exact h.filled.fits q hq
    · rw [List.mem_singleton.mp hq]
      exact Nat.le_of_eq hb

/-- What `putBehind` leaves: the bytes are where they were, and it neither stalls the driver nor wakes it. -/
structure Behind (d : Driver) (ts sd : List Ptr) (p : Ptr) (d' : Driver) : Prop where
  inv : d'.Inv RX_BUFFER_SIZE (ts ++ [p]) sd
  buffer : d'.buffer = d.buffer
  eof : d'.rx.eof = d.rx.eof
  stalled : d'.Stalled ↔ d.Stalled

/-- With nothing to send, the filled buffer is loaded. -/
theorem putBehind_first (h : d.Sending RX_BUFFER_SIZE [] sd) (hp : p ∉ sd)
    (hb : (d.buffer p).length = RX_BUFFER_SIZE) : ∃ d', putBehind d p = some d' ∧ Behind d [] sd p d' := by
  have hl := h.filled.lists
  have hne : d.buffer p ≠ [] := by
    rw [← List.length_pos_iff, hb]
    exact size_pos
  obtain ⟨next', head', hsend, hfilled⟩ := send_filled h hp hb
  obtain ⟨hr, hlink, heof⟩ := h.idle
  have hhead : head' = some p := hfilled.lists.toSend.head_eq
  subst hhead
  obtain ⟨rx, hload, heof', hrx, -⟩ := loadHead_rx
    (d := { d with lists := { d.lists with next := next', pHeadToSend := some p, pTailToSend := some p } })
    rfl (Nat.le_of_eq hb) hlink heof
  obtain ⟨hl', hptr, hlen⟩ := hrx hne
  have htry : sdioTryToLoad RX_BUFFER_SIZE { d with
      lists := { d.lists with next := next', pHeadToSend := some p, pTailToSend := some p } } = some { d with
        lists := { d.lists with next := next', pHeadToSend := some p, pTailToSend := some p }
        rx := rx } := by
    refine Eq.trans (sdioTryToLoad_eq _ ?_ (Eq.refl (some p))) hload
    exact hr
  unfold putBehind
  rw [hsend, hl.toSend.isNone_head]
  simp only [List.isEmpty_nil, if_true, Option.bind_eq_bind, Option.bind_some, htry, Lists.setNext_some]
  have hgo : Driver.Going { d with
      lists := { d.lists with next := Function.update next' p none, pHeadToSend := some p, pTailToSend := some p }
      rx := rx } [p] := .loaded hl' heof' hptr hlen
  refine ⟨_, rfl, ⟨⟨⟨hfilled.lists, hfilled.fits, hfilled.room, hfilled.rest⟩,
    fun _ hq => absurd hq List.not_mem_nil, Or.inl hgo⟩, fun hc => absurd hc (List.cons_ne_nil p [])⟩, rfl,
    heof'.trans heof.symm, ?_⟩
  exact ⟨fun hst => absurd (hst.2.1.symm.trans hl') Bool.false_ne_true, fun hst => absurd hl.toSend.head_eq hst.1⟩

/-- Behind others it waits. -/
theorem putBehind_next {q : Ptr} (h : d.Sending RX_BUFFER_SIZE (q :: ts) sd) (hp : p ∉ q :: ts ++ sd)
    (hb : (d.buffer p).length = RX_BUFFER_SIZE) : ∃ d', putBehind d p = some d' ∧ Behind d (q :: ts) sd p d' := by
  have hl := h.filled.lists
  obtain ⟨next', head', hsend, hfilled⟩ := send_filled h hp hb
  have hst : Driver.Stalled { d with
      lists := { d.lists with next := Function.update next' p none, pHeadToSend := head', pTailToSend := some p } } ↔
      d.Stalled := by
    unfold Driver.Stalled
    rw [hfilled.lists.toSend.head_eq, hl.toSend.head_eq]
    exact Iff.rfl
  unfold putBehind
  rw [hsend, hl.toSend.isNone_head]
  simp only [List.isEmpty_cons, Bool.false_eq_true, if_false, Option.bind_eq_bind, Option.bind_some,
    Lists.setNext_some]
  refine ⟨_, rfl, ⟨⟨hfilled, ?_, ?_⟩, fun hc => absurd hc (List.cons_ne_nil _ _)⟩, rfl, rfl, hst⟩
  · intro r hr
    rcases List.mem_append.mp hr with hr | hr
    · exact h.sent r hr
    · rw [List.mem_singleton.mp hr]
      apply List.ne_nil_of_length_pos
      show 0 < (d.buffer p).length
      rw [hb]
      exact size_pos
  · rcases h.mode with hgo | hs
    · apply Or.inl
      apply hgo.append
      · rfl
      · rfl
    · exact Or.inr (hst.mpr hs)

/-- The buffer goes behind those to send, with as many bytes as it can have. -/
theorem putBehind_is (h : d.Sending RX_BUFFER_SIZE ts sd) (hp : p ∉ ts ++ sd)
    (hb : (d.buffer p).length = RX_BUFFER_SIZE) : ∃ d', putBehind d p = some d' ∧ Behind d ts sd p d' := by
  cases ts with
  | nil => exact putBehind_first h hp hb
  | cons q ts => exact putBehind_next h hp hb

/-- What is written to the buffer is behind all other bytes. -/
theorem Out.flatMap_store (h : Out d ts sd p) (bytes : List UInt8) :
    (d.unread ts ++ p :: sd).flatMap (d.store p (d.buffer p ++ bytes)).buffer =
      (d.unread ts ++ p :: sd).flatMap d.buffer ++ bytes := by
  have hp := h.notMem
  rw [List.mem_append, not_or] at hp
  rw [List.flatMap_append, List.flatMap_append, List.flatMap_cons, List.flatMap_cons, buffer_store_self,
    SdioSlv.flatMap_store fun hmem => hp.1 (mem_of_mem_unread hmem), SdioSlv.flatMap_store hp.2, flatMap_empty h.empty,
    List.append_nil, List.append_nil, List.append_assoc]

theorem unread_append {d' : Driver} (h : d.Sending RX_BUFFER_SIZE ts sd) (he : d'.rx.eof = d.rx.eof) (p : Ptr) :
    d'.unread (ts ++ [p]) = d.unread ts ++ [p] := by
  cases ts with
  | nil =>
    have heof := h.idle.2.2
    rw [unread_of_not_eof heof, unread_of_not_eof (he.trans heof)]
  | cons q ts =>
    unfold Driver.unread
    rw [he]
    split <;> rfl

/-- The interrupt comes while the buffer is out: the one that was read is put behind the free ones. -/
theorem Out.isr (h : Out d ts sd p) (he : d.rx.eof = true) : ∃ d' ts' sd', sdioSlaveIsr RX_BUFFER_SIZE d = some d' ∧
    Out d' ts' sd' p ∧ (ts' ++ sd').Perm (ts ++ sd) ∧ d'.buffer p = d.buffer p ∧
      (d'.unread ts').flatMap d'.buffer = (d.unread ts).flatMap d.buffer ∧ ¬ d'.Stalled := by
  have hgo : d.Going ts := h.sending.mode.resolve_right fun hst => Bool.false_ne_true (hst.2.2.symm.trans he)
  cases hgo with
  | idle _ _ he' => exact absurd (he'.symm.trans he) Bool.false_ne_true
  | loaded _ he' => exact absurd (he'.symm.trans he) Bool.false_ne_true
  | @read q ts hlink =>
    obtain ⟨d', ts', sd', hd', hf, hb, he', hgo', hcases⟩ :=
      sdioSlaveIsr_is h.sending.filled size_pos h.sending.sent hlink
    have hp := h.notMem
    rw [List.cons_append, List.mem_cons, not_or] at hp
    have hqts : q ∉ ts := (List.nodup_cons.mp h.sending.filled.lists.toSend.nodup).1
    have hempty : ∀ r ∈ sd ++ [q], d'.buffer r = [] := by
      intro r hr
      rw [hb]
      by_cases he : r = q
      · rw [he, buffer_store_self]
      · rw [buffer_store_of_ne he]
        exact h.empty r ((List.mem_append.mp hr).resolve_right fun hm => he (List.mem_singleton.mp hm))
    obtain ⟨rfl, rfl, -⟩ := hcases.resolve_right fun ⟨_, r, hr, hne, _⟩ =>
      hne (hempty r (hr ▸ List.mem_cons_self))
    refine ⟨d', _, _, hd', ⟨⟨hf, ?_, Or.inl hgo'⟩, ?_, ?_, ?_, hempty⟩, ?_, ?_, ?_, hgo'.not_stalled hf⟩
    · intro r hr
      have hmem := List.mem_of_mem_tail hr
      rw [hb, buffer_store_of_ne (ne_of_mem_of_not_mem hmem hqts)]
      exact h.sending.sent r hmem
    · rw [← List.append_assoc, List.mem_append, not_or, List.mem_singleton]
      exact ⟨hp.2, hp.1⟩
    · intro hc
      exact absurd hc (List.append_ne_nil_of_right_ne_nil _ (List.cons_ne_nil q []))
    · rw [hb, buffer_store_of_ne hp.1]
      exact h.room
    · rw [← List.append_assoc]
      exact List.perm_append_singleton q _
    · rw [hb, buffer_store_of_ne hp.1]
    · rw [unread_of_not_eof he', unread_of_eof he, hb, SdioSlv.flatMap_store hqts]
      rfl

/-! ### Where a call can be -/

/-- The buffer that a call has taken out. -/
def Place.out : Place → List Ptr
  | .fill p _ => [p]
  | _ => []

/-- The data that is left. -/
def Place.left : Place → Option (List UInt8)
  | .loop data => some data
  | .fill _ data => some data
  | _ => none

/-- What is kept at each place. At the end of the loop the interrupt is disabled and there are bytes to
send, or the loop found no free buffer. -/
inductive At (d : Driver) (ena : Bool) (ts sd : List Ptr) : Place → Prop
  | idle (h : d.Inv RX_BUFFER_SIZE ts sd) : At d ena ts sd .idle
  | loop {data : List UInt8} (hne : data ≠ []) (h : d.Inv RX_BUFFER_SIZE ts sd) : At d ena ts sd (.loop data)
  | fill {p : Ptr} {data : List UInt8} (hne : data ≠ []) (h : Out d ts sd p) : At d ena ts sd (.fill p data)
  | done (hena : ena = false) (h : d.Sending RX_BUFFER_SIZE ts sd)
    (hfirst : ts = [] → ∃ p sd', sd = p :: sd' ∧ d.buffer p ≠ []) : At d ena ts sd (.loop [])
  | last (hena : ena = false) (h : d.Sending RX_BUFFER_SIZE ts sd)
    (hfirst : ts = [] → ∃ p sd', sd = p :: sd' ∧ d.buffer p ≠ []) : At d ena ts sd .last
  | full (h : d.Inv RX_BUFFER_SIZE ts sd) : At d ena ts sd .last

theorem At.sending {ena : Bool} {pl : Place} (h : At d ena ts sd pl) : d.Sending RX_BUFFER_SIZE ts sd := by
  cases h with
  | idle h => exact h.toSending
  | loop _ h => exact h.toSending
  | fill _ h => exact h.sending
  | done _ h => exact h
  | last _ h => exact h
  | full h => exact h.toSending

theorem At.hostRead {ena : Bool} {pl : Place} (h : At d ena ts sd pl) (hs : d.hostRead.Sending RX_BUFFER_SIZE ts sd) :
    At d.hostRead ena ts sd pl := by
  cases h with
  | idle h => exact .idle ⟨hs, h.start⟩
  | loop hne h => exact .loop hne ⟨hs, h.start⟩
  | fill hne h => exact .fill hne ⟨hs, h.notMem, h.last, h.room, h.empty⟩
  | done hena _ hfirst => exact .done hena hs hfirst
  | last hena _ hfirst => exact .last hena hs hfirst
  | full h => exact .full ⟨hs, h.start⟩

/-- The interrupt leaves a call where it is. -/
theorem At.isr {ena : Bool} {pl : Place} (h : At d ena ts sd pl) (hena : ena = true) (he : d.rx.eof = true) :
    ∃ d' ts' sd', sdioSlaveIsr RX_BUFFER_SIZE d = some d' ∧ At d' ena ts' sd' pl ∧
      (ts' ++ (pl.out ++ sd')).Perm (ts ++ (pl.out ++ sd)) ∧
      (d'.unread ts' ++ (pl.out ++ sd')).flatMap d'.buffer = (d.unread ts ++ (pl.out ++ sd)).flatMap d.buffer ∧
      ¬ d'.Stalled := by
  cases h with
  | idle h =>
    obtain ⟨d', ts', sd', hisr, hinv, hperm, hbytes, hns⟩ := h.isr size_pos he
    exact ⟨d', ts', sd', hisr, .idle hinv, hperm, hbytes, hns⟩
  | loop hne h =>
    obtain ⟨d', ts', sd', hisr, hinv, hperm, hbytes, hns⟩ := h.isr size_pos he
    exact ⟨d', ts', sd', hisr, .loop hne hinv, hperm, hbytes, hns⟩
  | full h =>
    obtain ⟨d', ts', sd', hisr, hinv, hperm, hbytes, hns⟩ := h.isr size_pos he
    exact ⟨d', ts', sd', hisr, .full hinv, hperm, hbytes, hns⟩
  | done hdis => exact absurd (hdis.symm.trans hena) Bool.false_ne_true
  | last hdis => exact absurd (hdis.symm.trans hena) Bool.false_ne_true
  | @fill p data hne h =>
    obtain ⟨d', ts', sd', hisr, hout, hperm, hp, hbytes, hns⟩ := h.isr he
    refine ⟨d', ts', sd', hisr, .fill hne hout, ?_, ?_, hns⟩
    · show (ts' ++ p :: sd').Perm (ts ++ p :: sd)
      exact List.perm_middle.trans ((hperm.cons p).trans List.perm_middle.symm)
    · show (d'.unread ts' ++ p :: sd').flatMap d'.buffer = (d.unread ts ++ p :: sd).flatMap d.buffer
      rw [List.flatMap_append, List.flatMap_append, hbytes, List.flatMap_cons, List.flatMap_cons, hp,
        flatMap_empty hout.empty, flatMap_empty h.empty]

/-- What a run keeps. -/
structure Inv (s : State) (ts sd : List Ptr) : Prop where
  ok : s.failed = false
  place : At s.driver s.ena ts sd s.place
  all : (ts ++ (s.place.out ++ sd)).Perm (List.range RX_BUFFER_NUM)
  order : s.delivered ++ (s.driver.unread ts ++ (s.place.out ++ sd)).flatMap s.driver.buffer = s.accepted
  counted : s.accepted = s.before ++ s.data.take s.data_len
  left : ∀ data, s.place.left = some data → s.data.drop s.data_len = data

/-- No data is left. -/
theorem left_none {data data' : List UInt8} (h : none = some data) : data' = data :=
  absurd h.symm (Option.some_ne_none data)

theorem inv_init : Inv machine.init [] [0, 1, 2, 3, 4] where
  ok := rfl
  place := .idle
    { filled :=
        { lists :=
            ⟨IsQueue.empty _ _, ⟨⟨rfl, rfl, rfl, rfl, rfl, rfl⟩, fun _ h => h, by decide⟩,
              fun _ h => absurd h List.not_mem_nil⟩
          fits := fun _ h => absurd h List.not_mem_nil
          room := fun _ _ => size_pos
          rest := fun _ _ => rfl }
      sent := fun _ h => absurd h List.not_mem_nil
      mode := Or.inl (.idle rfl rfl rfl)
      start := fun _ _ _ => rfl }
  all := List.Perm.refl _
  order := rfl
  counted := rfl
  left := fun _ => left_none

/-! ### What a step keeps -/

variable {s : State}

theorem hostRead_inv (h : Inv s ts sd) (hl : s.driver.rx.link = true) :
    Inv { s with driver := s.driver.hostRead, delivered := s.delivered ++ s.driver.shown } ts sd := by
  obtain ⟨hs, hshown⟩ := h.place.sending.hostRead hl
  refine ⟨h.ok, h.place.hostRead hs, h.all, ?_, h.counted, h.left⟩
  show s.delivered ++ s.driver.shown ++ (s.driver.hostRead.unread ts ++ (s.place.out ++ sd)).flatMap s.driver.buffer =
    s.accepted
  rw [← h.order]
  simp only [List.flatMap_append, ← hshown, List.append_assoc]

theorem isr_inv (h : Inv s ts sd) (hena : s.ena = true) (he : s.driver.rx.eof = true) : ∃ d' ts' sd',
    sdioSlaveIsr RX_BUFFER_SIZE s.driver = some d' ∧ Inv { s with driver := d' } ts' sd' ∧ ¬ d'.Stalled := by
  obtain ⟨d', ts', sd', hisr, hat, hperm, hbytes, hns⟩ := h.place.isr hena he
  refine ⟨d', ts', sd', hisr, ⟨h.ok, hat, hperm.trans h.all, ?_, h.counted, h.left⟩, hns⟩
  rw [← h.order]
  exact congrArg (s.delivered ++ ·) hbytes

/-- The top of the loop. -/
theorem loop_inv {data : List UInt8} (h : Inv s ts sd) (hp : s.place = .loop data) :
    ∃ ts' sd', Inv (exec s) ts' sd' ∧ ((exec s).driver.Stalled ↔ s.driver.Stalled) := by
  obtain ⟨hok, hplace, hall, horder, hcounted, hleft⟩ := h
  rw [hp] at hplace hall horder hleft
  unfold exec
  rw [hp]
  cases hplace with
  | done hena hs hfirst =>
    exact ⟨ts, sd, ⟨hok, .last hena hs hfirst, hall, horder, hcounted, fun _ => left_none⟩, Iff.rfl⟩
  | loop hne hinv =>
    have hleft' := hleft data rfl
    simp only [if_neg hne, hinv.filled.lists.sended.head_eq]
    cases sd with
    | nil =>
      exact ⟨ts, [], ⟨hok, .full hinv, hall, horder, hcounted, fun _ => left_none⟩, Iff.rfl⟩
    | cons p sd =>
      refine ⟨ts, sd, ⟨hok, .fill hne (out_of_inv hinv), hall, horder, hcounted, fun data' hc => ?_⟩, Iff.rfl⟩
      exact hleft'.trans (Option.some.inj hc)

/-- The counts after a part of the data is taken. -/
theorem counted_take {before data accepted : List UInt8} {n : ℕ} (h : accepted = before ++ data.take n) (m : ℕ) :
    accepted ++ (data.drop n).take m = before ++ data.take (n + m) := by
  rw [h, List.append_assoc, List.take_add]

/-- The data ends in the buffer, which is put back. -/
theorem fill_part {p : Ptr} {data : List UInt8} (h : Inv s ts sd) (hp : s.place = .fill p data)
    (hlt : data.length < RX_BUFFER_SIZE - (s.driver.buffer p).length) :
    Inv (exec s) ts (p :: sd) ∧ ((exec s).driver.Stalled ↔ s.driver.Stalled) := by
  obtain ⟨hok, hplace, hall, horder, hcounted, hleft⟩ := h
  rw [hp] at hplace hall horder hleft
  have hdata : s.data.drop s.data_len = data := hleft data rfl
  cases hplace with
  | fill hne hout =>
    have hlen : (s.driver.buffer p ++ data).length < RX_BUFFER_SIZE := by
      rw [List.length_append]
      omega
    unfold exec
    rw [hp]
    simp only [if_pos hlt]
    refine ⟨⟨hok, .done rfl (hout.store hlen).putBack fun _ => ⟨p, sd, rfl, ?_⟩, hall, ?_, ?_, ?_⟩, Iff.rfl⟩
    · show (s.driver.store p (s.driver.buffer p ++ data)).buffer p ≠ []
      rw [buffer_store_self]
      exact List.append_ne_nil_of_right_ne_nil _ hne
    · show s.delivered ++ (s.driver.unread ts ++ p :: sd).flatMap
        (s.driver.store p (s.driver.buffer p ++ data)).buffer = s.accepted ++ data
      rw [hout.flatMap_store, ← List.append_assoc, ← horder]
      rfl
    · have hcount := counted_take hcounted data.length
      rwa [hdata, List.take_length] at hcount
    · intro data' hc
      show s.data.drop (s.data_len + data.length) = data'
      rw [← List.drop_drop, hdata, List.drop_length]
      exact Option.some.inj hc

/-- The buffer is filled, and goes behind those to send. -/
theorem fill_full {p : Ptr} {data : List UInt8} (h : Inv s ts sd) (hp : s.place = .fill p data)
    (hge : ¬ data.length < RX_BUFFER_SIZE - (s.driver.buffer p).length) :
    Inv (exec s) (ts ++ [p]) sd ∧ ((exec s).driver.Stalled ↔ s.driver.Stalled) := by
  obtain ⟨hok, hplace, hall, horder, hcounted, hleft⟩ := h
  rw [hp] at hplace hall horder hleft
  have hdata : s.data.drop s.data_len = data := hleft data rfl
  cases hplace with
  | fill hne hout =>
    have hlen := length_full (Nat.le_of_not_lt hge) hout.room
    obtain ⟨d', hput, hbehind⟩ := putBehind_is (sending_store hout.sending hout.notMem _) hout.notMem
      (by rw [buffer_store_self]; exact hlen)
    unfold exec
    rw [hp]
    simp only [if_neg hge]
    rw [hput]
    refine ⟨⟨hok, ?_, ?_, ?_, ?_, ?_⟩, hbehind.stalled⟩
    · by_cases hnil : data.drop (RX_BUFFER_SIZE - (s.driver.buffer p).length) = []
      · rw [hnil]
        refine .done rfl hbehind.inv.toSending fun hc => ?_
        exact absurd hc (List.append_ne_nil_of_right_ne_nil ts (List.cons_ne_nil p []))
      · exact .loop hnil hbehind.inv
    · show (ts ++ [p] ++ sd).Perm _
      rw [List.append_assoc]
      exact hall
    · show s.delivered ++ (d'.unread (ts ++ [p]) ++ sd).flatMap d'.buffer = s.accepted ++ _
      rw [unread_append hout.sending hbehind.eof, List.append_assoc, hbehind.buffer, List.singleton_append,
        hout.flatMap_store, ← List.append_assoc, ← horder]
      rfl
    · have hcount := counted_take hcounted (RX_BUFFER_SIZE - (s.driver.buffer p).length)
      rwa [hdata] at hcount
    · intro data' hc
      show s.data.drop (s.data_len + (RX_BUFFER_SIZE - (s.driver.buffer p).length)) = data'
      rw [← List.drop_drop, hdata]
      exact Option.some.inj hc

/-- A buffer is filled. -/
theorem fill_inv {p : Ptr} {data : List UInt8} (h : Inv s ts sd) (hp : s.place = .fill p data) :
    ∃ ts' sd', Inv (exec s) ts' sd' ∧ ((exec s).driver.Stalled ↔ s.driver.Stalled) := by
  by_cases hlt : data.length < RX_BUFFER_SIZE - (s.driver.buffer p).length
  · exact ⟨ts, p :: sd, fill_part h hp hlt⟩
  · exact ⟨ts ++ [p], sd, fill_full h hp hlt⟩

/-- A call that comes to its last test with nothing to send has left bytes in the first free buffer. -/
def InTime (s : State) : Event → Prop
  | .exec => s.place = .last → s.driver.lists.pHeadToSend = none →
    ∃ p, s.driver.lists.pHeadSended = some p ∧ s.driver.buffer p ≠ []
  | _ => True

/-- A step that is in time and stalls no driver that runs. -/
theorem stalled_iff {e : Event} {d' : Driver} (hin : InTime s e) (hst : d'.Stalled → s.driver.Stalled)
    (hns : ¬ s.driver.Stalled) : d'.Stalled ↔ ¬ InTime s e :=
  iff_of_false (fun h => hns (hst h)) fun hc => hc hin

theorem inTime_of_place (h : s.place ≠ .last) : InTime s .exec := fun hl => absurd hl h

/-- The last test. -/
theorem last_inv (h : Inv s ts sd) (hp : s.place = .last) : ∃ ts' sd', Inv (exec s) ts' sd' ∧
    (¬ s.driver.Stalled → ((exec s).driver.Stalled ↔ ¬ InTime s .exec)) := by
  obtain ⟨hok, hplace, hall, horder, hcounted, -⟩ := h
  rw [hp] at hplace hall horder
  have hs := hplace.sending
  have hhead := hs.filled.lists.toSend.head_eq
  have hleft : ∀ data, Place.idle.left = some data → s.data.drop s.data_len = data := fun _ => left_none
  unfold exec
  rw [hp]
  simp only
  cases ts with
  | cons q ts =>
    rw [loadFirst_of_cons hs.filled]
    have hinv : s.driver.Inv RX_BUFFER_SIZE (q :: ts) sd := ⟨hs, fun hc => absurd hc (List.cons_ne_nil q ts)⟩
    have hin : InTime s .exec := fun _ hnone => absurd (hhead.symm.trans hnone) (Option.some_ne_none q)
    exact ⟨q :: ts, sd, ⟨hok, .idle hinv, hall, horder, hcounted, hleft⟩, stalled_iff hin id⟩
  | nil =>
    obtain ⟨hr, hl, he⟩ := hs.idle
    cases sd with
    | nil => exact absurd hall.length_eq (by decide)
    | cons p sd =>
      obtain ⟨d', hload, hf, hb, he', hgo, hst⟩ := loadFirst_is hs.filled hr hl he
      rw [hload]
      have hmode : d'.Stalled ↔ s.driver.buffer p = [] := by
        refine ⟨fun hst' => ?_, hst⟩
        by_contra hne
        exact (hgo hne).not_stalled hf hst'
      have hinv : d'.Inv RX_BUFFER_SIZE [p] sd := by
        refine ⟨⟨hf, fun _ hq => absurd hq List.not_mem_nil, ?_⟩, fun hc => absurd hc (List.cons_ne_nil p [])⟩
        by_cases hnil : s.driver.buffer p = []
        · exact Or.inr (hst hnil)
        · exact Or.inl (hgo hnil)
      refine ⟨[p], sd, ⟨hok, .idle hinv, hall, ?_, hcounted, hleft⟩, fun _ => ?_⟩
      · show s.delivered ++ (d'.unread [p] ++ sd).flatMap d'.buffer = s.accepted
        rw [unread_of_not_eof he', hb, ← horder, unread_of_not_eof he]
        rfl
      · show d'.Stalled ↔ _
        rw [hmode]
        have hsended : s.driver.lists.pHeadSended = some p := hs.filled.lists.sended.head_eq
        constructor
        · rintro hnil hin
          obtain ⟨q, hq, hne⟩ := hin hp hhead
          rw [hsended] at hq
          obtain rfl := Option.some.inj hq
          exact hne hnil
        · intro hin
          by_contra hne
          exact hin fun _ _ => ⟨p, hsended, hne⟩

theorem inv_step {s' : State} {e : Event} (h : Inv s ts sd) (hs : step s e = some s') : ∃ ts' sd', Inv s' ts' sd' ∧
    (¬ s.driver.Stalled → (s'.driver.Stalled ↔ ¬ InTime s e)) := by
  cases e with
  | response data =>
    unfold step at hs
    simp only at hs
    split at hs
    · rename_i hp
      have hplace := h.place
      have hall := h.all
      have horder := h.order
      rw [hp] at hplace hall horder
      have hin : ¬ s.driver.Stalled → (s.driver.Stalled ↔ ¬ InTime s (.response data)) := stalled_iff trivial id
      split at hs
      · obtain rfl := Option.some.inj hs
        exact ⟨ts, sd, h, hin⟩
      · rename_i hne
        obtain rfl := Option.some.inj hs
        have hcounted : s.accepted = s.accepted ++ data.take 0 := (List.append_nil _).symm
        cases hplace with
        | idle hinv =>
          split
          · exact ⟨ts, sd, ⟨h.ok, .idle hinv, hall, horder, hcounted, fun _ => left_none⟩, hin⟩
          · exact ⟨ts, sd, ⟨h.ok, .loop hne hinv, hall, horder, hcounted, fun _ hc => Option.some.inj hc⟩, hin⟩
    · exact absurd hs.symm (Option.some_ne_none _)
  | exec =>
    obtain rfl := Option.some.inj hs
    cases hp : s.place with
    | idle =>
      have hexec : exec s = s := by
        unfold exec
        rw [hp]
      rw [hexec]
      exact ⟨ts, sd, h, stalled_iff (inTime_of_place fun hl => Place.noConfusion (hp.symm.trans hl)) id⟩
    | loop data =>
      obtain ⟨ts', sd', h', hst⟩ := loop_inv h hp
      exact ⟨ts', sd', h', stalled_iff (inTime_of_place fun hl => Place.noConfusion (hp.symm.trans hl)) hst.mp⟩
    | fill p data =>
      obtain ⟨ts', sd', h', hst⟩ := fill_inv h hp
      exact ⟨ts', sd', h', stalled_iff (inTime_of_place fun hl => Place.noConfusion (hp.symm.trans hl)) hst.mp⟩
    | last => exact last_inv h hp
  | hostRead =>
    obtain ⟨hl, hs'⟩ := Option.ite_none_right_eq_some.mp hs
    obtain rfl := Option.some.inj hs'
    exact ⟨ts, sd, hostRead_inv h hl, stalled_iff trivial fun hst => absurd hst.2.2.symm Bool.false_ne_true⟩
  | isr =>
    obtain ⟨hc, hs'⟩ := Option.ite_none_right_eq_some.mp hs
    obtain ⟨hena, he⟩ := Bool.and_eq_true_iff.mp hc
    obtain ⟨d', ts', sd', hisr, h', hns⟩ := isr_inv h hena he
    rw [hisr] at hs'
    obtain rfl := Option.some.inj hs'
    exact ⟨ts', sd', h', stalled_iff trivial fun hst => absurd hst hns⟩

/-- The lists are lists of all the buffers but the one taken out, what the host has read and what the
buffers hold is what was taken, and the last call has counted what it took. -/
structure InOrder (s : State) (ts sd : List Ptr) : Prop where
  ok : s.failed = false
  lists : s.driver.lists.Holds ts sd
  all : (ts ++ (s.place.out ++ sd)).Perm (List.range RX_BUFFER_NUM)
  order : s.delivered ++ (s.driver.unread ts ++ (s.place.out ++ sd)).flatMap s.driver.buffer = s.accepted
  counted : s.accepted = s.before ++ s.data.take s.data_len

theorem responses_in_order (es : List Event) :
    machine.Throughout (fun s => ∃ ts sd, InOrder s ts sd) machine.init es := by
  refine (machine.throughout_of_inv (I := fun s => ∃ ts sd, Inv s ts sd) (fun s e s' h hs => ?_)
    ⟨_, _, inv_init⟩ es).mono machine fun s h => ?_
  · obtain ⟨ts, sd, h⟩ := h
    obtain ⟨ts', sd', h', -⟩ := inv_step h hs
    exact ⟨ts', sd', h'⟩
  · obtain ⟨ts, sd, h⟩ := h
    exact ⟨ts, sd, h.ok, h.place.sending.filled.lists, h.all, h.order, h.counted⟩

theorem keeps_sending_iff (es : List Event) :
    machine.Throughout (fun s => ¬ s.driver.Stalled) machine.init es ↔ machine.Along InTime machine.init es := by
  refine machine.throughout_iff_along (I := fun s => (∃ ts sd, Inv s ts sd) ∧ ¬ s.driver.Stalled) (fun s h => h.2)
    (fun s e s' h hin hs => ?_) (fun s e s' h hin hs hns => ?_) ⟨⟨_, _, inv_init⟩, fun hst => hst.1 rfl⟩ es
  · obtain ⟨⟨ts, sd, h⟩, hns⟩ := h
    obtain ⟨ts', sd', h', hiff⟩ := inv_step h hs
    exact ⟨⟨ts', sd', h'⟩, fun hst => (hiff hns).mp hst hin⟩
  · obtain ⟨⟨ts, sd, h⟩, hns'⟩ := h
    obtain ⟨ts', sd', h', hiff⟩ := inv_step h hs
    exact hns ((hiff hns').mpr hin)

end AtSdio
end Netacademia
