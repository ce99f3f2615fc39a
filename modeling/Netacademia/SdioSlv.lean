/-
# The SDIO slave

`driver/sdio_slv.c` of `orai_munka`, `development` and `driver_lib`, the direction to the host.
The buffers are in two linked lists: those to send, and those sent, of which the first may have
bytes already. `sdio_load_data` fills buffers of the second list and puts them behind the first
one; the host reads one buffer at a time, and the interrupt puts it back and loads the next.
The interrupt is taken between the calls of `sdio_load_data`.

* `loads_in_order`: the lists stay lists of all the buffers, and what the host has read and what is
  in the buffers is what was taken, in its order.
* `never_stalls_iff`: the host is always given what there is to send, if and only if each call
  that finds nothing to send has at least one byte and less than a buffer: else nothing is
  loaded, then or later.
-/
import Netacademia.Lib.Linked
import Netacademia.Lib.Machine

namespace Netacademia
namespace SdioSlv

open Lib Linked

abbrev Ptr := ℕ

/-! ### The lists -/

/-- The `next` of the buffers, and the ends of the lists. -/
structure Lists where
  next : Ptr → Option Ptr
  pHeadToSend : Option Ptr
  pTailToSend : Option Ptr
  pHeadSended : Option Ptr
  pTailSended : Option Ptr

/-- `p->next = v`, which fails where there is no `p`. -/
def Lists.setNext (l : Lists) (p v : Option Ptr) : Option Lists :=
  p.map fun p => { l with next := Function.update l.next p v }

/-- `sdio_read_done_process`: the buffer that was read goes behind those sent. -/
def Lists.readDone (l : Lists) : Option Lists := do
  let p ← l.pHeadToSend
  let l ← if l.pHeadSended.isSome then
      (l.setNext l.pTailSended l.pHeadToSend).map fun l => { l with pTailSended := l.pTailSended.bind l.next }
    else some { l with pTailSended := l.pHeadToSend, pHeadSended := l.pHeadToSend }
  let l := { l with pHeadToSend := l.next p }
  l.setNext l.pTailSended none

/-- The first of those sent becomes the one to send. -/
def Lists.sendFirst (l : Lists) : Option Lists := do
  let p ← l.pHeadSended
  let l := { l with pTailToSend := some p, pHeadToSend := some p, pHeadSended := l.next p }
  l.setNext l.pTailToSend none

/-- `temp_list` goes behind those to send, but for its `next`. -/
def Lists.send (l : Lists) (temp_list : Option Ptr) : Option Lists :=
  if l.pHeadToSend.isNone then some { l with pTailToSend := temp_list, pHeadToSend := temp_list }
  else (l.setNext l.pTailToSend temp_list).map fun l => { l with pTailToSend := l.pTailToSend.bind l.next }

/-- `sdio_load_data`: the first of those sent goes behind those to send. -/
def Lists.sendFull (l : Lists) : Option Lists := do
  let p ← l.pHeadSended
  let l ← l.send (some p)
  let l := { l with pHeadSended := l.next p }
  l.setNext l.pTailToSend none

/-- The two lists that the memory holds. -/
structure Lists.Holds (l : Lists) (ts sd : List Ptr) : Prop where
  toSend : IsQueue l.next l.pHeadToSend l.pTailToSend ts
  sended : IsQueue l.next l.pHeadSended l.pTailSended sd
  apart : ∀ p ∈ ts, p ∉ sd

variable {l : Lists} {ts sd : List Ptr} {p : Ptr}

theorem Lists.setNext_some (l : Lists) (p : Ptr) (v : Option Ptr) :
    l.setNext (some p) v = some { l with next := Function.update l.next p v } := rfl

theorem Lists.Holds.sendFirst (h : l.Holds [] (p :: sd)) : ∃ l', l.sendFirst = some l' ∧ l'.Holds [p] sd := by
  have hhead : l.pHeadSended = some p := h.sended.head_eq
  have hp : p ∉ sd := (List.nodup_cons.mp h.sended.nodup).1
  unfold Lists.sendFirst
  rw [hhead]
  refine ⟨_, rfl, IsQueue.single l.next p, h.sended.pop.update hp none, ?_⟩
  intro q hq
  rwa [List.mem_singleton.mp hq]

theorem Lists.Holds.readDone (h : l.Holds (p :: ts) sd) : ∃ l', l.readDone = some l' ∧ l'.Holds ts (sd ++ [p]) := by
  have hhead : l.pHeadToSend = some p := h.toSend.head_eq
  have hp : p ∉ sd := h.apart p List.mem_cons_self
  have hpt : p ∉ ts := (List.nodup_cons.mp h.toSend.nodup).1
  have hapart : ∀ q ∈ ts, q ∉ sd ++ [p] := by
    intro q hq hmem
    rcases List.mem_append.mp hmem with hs | hs
    · exact h.apart q (List.mem_cons_of_mem p hq) hs
    · exact hpt (List.mem_singleton.mp hs ▸ hq)
  have hsome : l.pHeadSended.isSome = !sd.isEmpty := by
    rw [← h.sended.isNone_head, Option.not_isNone]
  unfold Lists.readDone
  rw [hhead, hsome]
  by_cases hs : sd = []
  · subst hs
    exact ⟨_, rfl, h.toSend.pop.update hpt none, IsQueue.single l.next p, hapart⟩
  · obtain ⟨t, ht, htmem, hq⟩ := h.sended.push hs hp
    have htp : p ≠ t := fun he => hp (he ▸ htmem)
    have hts : t ∉ ts := fun hmem => h.apart t (List.mem_cons_of_mem p hmem) htmem
    rw [List.isEmpty_eq_false_iff.mpr hs]
    simp only [ht, Bool.not_false, if_true, Lists.setNext_some, Option.map_some, Option.bind_eq_bind,
      Option.bind_some, Function.update_self, Function.update_of_ne htp]
    exact ⟨_, rfl, (h.toSend.pop.update hts _).update hpt none, hq, hapart⟩

/-- A buffer goes behind those to send, and the other queues of the memory stay. -/
theorem Lists.send_is (h : IsQueue l.next l.pHeadToSend l.pTailToSend ts) (hp : p ∉ ts) :
    ∃ next' head', l.send (some p) = some { l with next := next', pHeadToSend := head', pTailToSend := some p } ∧
      next' p = l.next p ∧ IsQueue (Function.update next' p none) head' (some p) (ts ++ [p]) ∧
      ∀ head last qs, IsQueue l.next head last qs → (∀ q ∈ ts, q ∉ qs) → p ∉ qs →
        IsQueue (Function.update next' p none) head last qs := by
  unfold Lists.send
  rw [h.isNone_head]
  by_cases hs : ts = []
  · subst hs
    exact ⟨_, _, rfl, rfl, IsQueue.single l.next p, fun head last qs hq _ hpq => hq.update hpq none⟩
  · obtain ⟨t, ht, htmem, hq⟩ := h.push hs hp
    have htp : p ≠ t := fun he => hp (he ▸ htmem)
    rw [List.isEmpty_eq_false_iff.mpr hs]
    simp only [ht, Bool.false_eq_true, if_false, Lists.setNext_some, Option.map_some, Option.bind_some,
      Function.update_self]
    exact ⟨_, _, rfl, Function.update_of_ne htp _ _, hq,
      fun head last qs hqs hts hpq => (hqs.update (hts t htmem) _).update hpq none⟩

theorem Lists.Holds.sendFull (h : l.Holds ts (p :: sd)) : ∃ l', l.sendFull = some l' ∧ l'.Holds (ts ++ [p]) sd := by
  have hhead : l.pHeadSended = some p := h.sended.head_eq
  have hp : p ∉ sd := (List.nodup_cons.mp h.sended.nodup).1
  have hpt : p ∉ ts := fun hmem => h.apart p hmem List.mem_cons_self
  have hts : ∀ q ∈ ts, q ∉ sd := fun q hq hmem => h.apart q hq (List.mem_cons_of_mem p hmem)
  obtain ⟨next', head', hsend, hnext, hq, hframe⟩ := Lists.send_is h.toSend hpt
  unfold Lists.sendFull
  rw [hhead]
  simp only [Option.bind_eq_bind, Option.bind_some, hsend, hnext]
  refine ⟨_, rfl, hq, hframe _ _ _ h.sended.pop hts hp, ?_⟩
  intro q hmem
  rcases List.mem_append.mp hmem with hq' | hq'
  · exact hts q hq'
  · rwa [List.mem_singleton.mp hq']

/-! ### The driver -/

/-- What the host is shown of the buffer that is to be read. -/
structure Rx where
  hasRead : Bool
  /-- `rx_que` -/
  bufPtr : Option Ptr
  datalen : ℕ
  /-- `sdio_slave_status`, in `SLC_HOST_CONF_W2` -/
  rdEmpty : Bool
  rxLength : ℕ
  rxAvailible : Bool
  /-- `SLC_RXLINK_START` until the host has read the buffer, and then `SLC_RX_EOF` until the interrupt. -/
  link : Bool
  eof : Bool

structure Driver where
  lists : Lists
  /-- The bytes in front of `tail`, of each buffer. -/
  buffer : Ptr → List UInt8
  rx : Rx

/-- The bytes in front of a `tail` become `bytes`. -/
def Driver.store (d : Driver) (p : Ptr) (bytes : List UInt8) : Driver :=
  { d with buffer := Function.update d.buffer p bytes }

section Driver

variable (size : ℕ)

def rxBuffLoadDone (rx : Rx) (rx_len : ℕ) : Rx :=
  if rx_len = 0 then rx
  else
    let rx_len := if size < rx_len then size else rx_len
    { rx with datalen := rx_len, rdEmpty := false, rxAvailible := true, rxLength := rx_len, link := true }

/-- The first buffer to send is loaded. -/
def loadHead (d : Driver) : Option Driver :=
  d.lists.pHeadToSend.map fun p =>
    { d with rx := { rxBuffLoadDone size { d.rx with bufPtr := some p } (d.buffer p).length with hasRead := false } }

def sdioTryToLoad (d : Driver) : Option Driver :=
  if d.rx.hasRead && d.lists.pHeadToSend.isSome then loadHead size d else some d

def rxBuffReadDone (rx : Rx) : Rx := { rx with rdEmpty := true, rxLength := 0, rxAvailible := false }

/-- The end of `sdio_read_done_process`. -/
def loadNext (d : Driver) : Option Driver :=
  if d.lists.pHeadToSend.isSome then loadHead size d
  else
    match d.lists.pHeadSended with
    | none => some d
    | some p =>
      if d.buffer p = [] then some d
      else do
        let lists ← d.lists.sendFirst
        loadHead size { d with lists := lists }

def sdioReadDoneProcess (d : Driver) : Option Driver := do
  let p ← d.lists.pHeadToSend
  let lists ← d.lists.readDone
  loadNext size { d.store p [] with lists := lists, rx := { d.rx with hasRead := true } }

/-- The branch of `SLC_RX_EOF` in `sdio_slave_isr`. -/
def sdioSlaveIsr (d : Driver) : Option Driver :=
  sdioReadDoneProcess size { d with rx := rxBuffReadDone { d.rx with eof := false } }

/-- The loop of `sdio_load_data`: the driver after it, `data_len`, and what is left of the data. -/
def sdioLoadLoop : ℕ → Driver → List UInt8 → Option (Driver × ℕ × List UInt8)
  | 0, _, _ => none
  | n + 1, d, data =>
    if data = [] then some (d, 0, [])
    else do
      let p ← d.lists.pHeadSended
      let left_len := size - (d.buffer p).length
      if data.length < left_len then
        -- `len` is set to 0 before it is added to `data_len`
        some (d.store p (d.buffer p ++ data), 0, [])
      else
        let lists ← d.lists.sendFull
        let d := { d.store p (d.buffer p ++ data.take left_len) with lists := lists }
        if lists.pHeadSended.isNone then some (d, left_len, data.drop left_len)
        else
          let r ← sdioLoadLoop n d (data.drop left_len)
          some (r.1, left_len + r.2.1, r.2.2)

/-- The end of `sdio_load_data`. -/
def loadFirst (d : Driver) : Option Driver :=
  if d.lists.pHeadToSend.isNone then do
    let lists ← d.lists.sendFirst
    sdioTryToLoad size { d with lists := lists }
  else some d

def sdioLoadData (d : Driver) (data : List UInt8) : Option (Driver × ℕ × List UInt8) :=
  if d.lists.pHeadSended.isNone then some (d, 0, data)
  else do
    let r ← sdioLoadLoop size (data.length + 1) d data
    let d ← loadFirst size r.1
    some (d, r.2)

/-- `sdio_slave_init`, which gets `num` buffers. -/
def sdioSlaveInit (num : ℕ) : Driver where
  lists :=
    { next := fun p => if p + 1 < num then some (p + 1) else none
      pHeadToSend := none
      pTailToSend := none
      pHeadSended := some 0
      pTailSended := some (num - 1) }
  buffer := fun _ => []
  rx :=
    { hasRead := true
      bufPtr := some 0
      datalen := 0
      rdEmpty := true
      rxLength := 0
      rxAvailible := false
      link := false
      eof := false }

end Driver

/-! ### What the buffers hold -/

/-- Those to send hold what a buffer can, and those sent nothing, but for the first. -/
structure Driver.Filled (size : ℕ) (d : Driver) (ts sd : List Ptr) : Prop where
  lists : d.lists.Holds ts sd
  fits : ∀ p ∈ ts, (d.buffer p).length ≤ size
  room : ∀ p ∈ sd, (d.buffer p).length < size
  rest : ∀ p ∈ sd.tail, d.buffer p = []

variable {size : ℕ} {d : Driver}

theorem buffer_store_self (d : Driver) (p : Ptr) (bytes : List UInt8) : (d.store p bytes).buffer p = bytes := by
  unfold Driver.store
  exact Function.update_self ..

theorem buffer_store_of_ne {q : Ptr} (h : q ≠ p) (d : Driver) (bytes : List UInt8) :
    (d.store p bytes).buffer q = d.buffer q := by
  unfold Driver.store
  exact Function.update_of_ne h ..

theorem flatMap_store {ps : List Ptr} (hp : p ∉ ps) (d : Driver) (bytes : List UInt8) :
    ps.flatMap (d.store p bytes).buffer = ps.flatMap d.buffer :=
  List.flatMap_congr fun _ hq => buffer_store_of_ne (ne_of_mem_of_not_mem hq hp) d bytes

theorem flatMap_empty {ps : List Ptr} {buffer : Ptr → List UInt8} (h : ∀ p ∈ ps, buffer p = []) :
    ps.flatMap buffer = [] := List.flatMap_eq_nil_iff.mpr h

/-- Bytes are put in the first free buffer, and there is room left in it. -/
theorem Driver.Filled.store (h : d.Filled size ts (p :: sd)) {bytes : List UInt8} (hb : bytes.length < size) :
    (d.store p bytes).Filled size ts (p :: sd) where
  lists := h.lists
  fits := by
    intro q hq
    have hpts : p ∉ ts := fun hmem => h.lists.apart p hmem List.mem_cons_self
    rw [buffer_store_of_ne (ne_of_mem_of_not_mem hq hpts)]
    exact h.fits q hq
  room := by
    intro q hq
    by_cases he : q = p
    · rwa [he, buffer_store_self]
    · rw [buffer_store_of_ne he]
      exact h.room q hq
  rest := by
    intro q hq
    rw [buffer_store_of_ne (ne_of_mem_of_not_mem hq (List.nodup_cons.mp h.lists.sended.nodup).1)]
    exact h.rest q hq

/-- The first free buffer is filled, and goes behind those to send. -/
theorem Driver.Filled.sendFull (h : d.Filled size ts (p :: sd)) {bytes : List UInt8} (hb : bytes.length ≤ size) :
    ∃ lists, d.lists.sendFull = some lists ∧
      Driver.Filled size { d.store p bytes with lists := lists } (ts ++ [p]) sd := by
  obtain ⟨lists, hs, hl⟩ := h.lists.sendFull
  have hp : p ∉ sd := (List.nodup_cons.mp h.lists.sended.nodup).1
  refine ⟨lists, hs, hl, ?_, ?_, ?_⟩
  · intro q hq
    show ((d.store p bytes).buffer q).length ≤ size
    by_cases he : q = p
    · rwa [he, buffer_store_self]
    · rw [buffer_store_of_ne he]
      exact h.fits q ((List.mem_append.mp hq).resolve_right fun hm => he (List.mem_singleton.mp hm))
  · intro q hq
    show ((d.store p bytes).buffer q).length < size
    rw [buffer_store_of_ne (ne_of_mem_of_not_mem hq hp)]
    exact h.room q (List.mem_cons_of_mem p hq)
  · intro q hq
    show (d.store p bytes).buffer q = []
    rw [buffer_store_of_ne (ne_of_mem_of_not_mem (List.mem_of_mem_tail hq) hp)]
    exact h.rest q (List.mem_of_mem_tail hq)

theorem Driver.Filled.sendFirst (h : d.Filled size [] (p :: sd)) :
    ∃ lists, d.lists.sendFirst = some lists ∧ Driver.Filled size { d with lists := lists } [p] sd := by
  obtain ⟨lists, hs, hl⟩ := h.lists.sendFirst
  refine ⟨lists, hs, hl, fun q hq => ?_, fun q hq => h.room q (List.mem_cons_of_mem p hq),
    fun q hq => h.rest q (List.mem_of_mem_tail hq)⟩
  rw [List.mem_singleton.mp hq]
  exact Nat.le_of_lt (h.room p List.mem_cons_self)

/-- The buffer that was read is free again. -/
theorem Driver.Filled.readDone (h : d.Filled size (p :: ts) sd) (hsize : 0 < size) :
    ∃ lists, d.lists.readDone = some lists ∧
      Driver.Filled size { d.store p [] with lists := lists } ts (sd ++ [p]) := by
  obtain ⟨lists, hs, hl⟩ := h.lists.readDone
  have hp : p ∉ sd := h.lists.apart p List.mem_cons_self
  have hpt : p ∉ ts := (List.nodup_cons.mp h.lists.toSend.nodup).1
  refine ⟨lists, hs, hl, ?_, ?_, ?_⟩
  · intro q hq
    show ((d.store p []).buffer q).length ≤ size
    rw [buffer_store_of_ne (ne_of_mem_of_not_mem hq hpt)]
    exact h.fits q (List.mem_cons_of_mem p hq)
  · intro q hq
    show ((d.store p []).buffer q).length < size
    rcases List.mem_append.mp hq with hq | hq
    · rw [buffer_store_of_ne (ne_of_mem_of_not_mem hq hp)]
      exact h.room q hq
    · rwa [List.mem_singleton.mp hq, buffer_store_self]
  · intro q hq
    show (d.store p []).buffer q = []
    by_cases he : q = p
    · rw [he, buffer_store_self]
    · rw [buffer_store_of_ne he]
      cases sd with
      | nil => exact absurd hq List.not_mem_nil
      | cons r sd => exact h.rest q ((List.mem_append.mp hq).resolve_right fun hm => he (List.mem_singleton.mp hm))

/-- What the loop takes of the data goes behind the bytes of the free buffers, of which the first
ones, `full`, go behind those to send. -/
structure Took (size : ℕ) (d : Driver) (ts sd : List Ptr) (data : List UInt8) (d' : Driver) (full sd' : List Ptr)
    (rest : List UInt8) : Prop where
  filled : d'.Filled size (ts ++ full) sd'
  moved : sd = full ++ sd'
  bytes : ∃ taken, data = taken ++ rest ∧ sd.flatMap d'.buffer = sd.flatMap d.buffer ++ taken
  frame : ∀ p ∉ sd, d'.buffer p = d.buffer p
  rx : d'.rx = d.rx
  /-- The loop goes on while there is a free buffer. -/
  ended : sd' ≠ [] → rest = []
  full_ne : ∀ p ∈ full, d'.buffer p ≠ []
  none : (∀ p ∈ sd, d.buffer p = []) → (full = [] ↔ data.length < size)

/-- Without data nothing is taken. -/
theorem took_nil (h : d.Filled size ts sd) (hsize : 0 < size) : Took size d ts sd [] d [] sd [] where
  filled := by rwa [List.append_nil]
  moved := rfl
  bytes := ⟨[], rfl, (List.append_nil _).symm⟩
  frame _ _ := rfl
  rx := rfl
  ended _ := rfl
  full_ne _ hq := absurd hq List.not_mem_nil
  none _ := iff_of_true rfl hsize

/-- Behind the first free buffer they are empty. -/
theorem Driver.Filled.flatMap_rest (h : d.Filled size ts (p :: sd)) : sd.flatMap d.buffer = [] :=
  flatMap_empty h.rest

theorem Driver.Filled.flatMap_sended (h : d.Filled size ts (p :: sd)) : (p :: sd).flatMap d.buffer = d.buffer p := by
  rw [List.flatMap_cons, h.flatMap_rest, List.append_nil]

/-- The data ends in the first free buffer. -/
theorem took_part (h : d.Filled size ts (p :: sd)) {data : List UInt8}
    (hlt : data.length < size - (d.buffer p).length) :
    Took size d ts (p :: sd) data (d.store p (d.buffer p ++ data)) [] (p :: sd) [] := by
  have hlen : (d.buffer p ++ data).length < size := by
    rw [List.length_append]
    omega
  have hstore := h.store hlen
  refine ⟨by rwa [List.append_nil], rfl, ⟨data, (List.append_nil _).symm, ?_⟩,
    fun q hq => buffer_store_of_ne (List.ne_of_not_mem_cons hq) d _, rfl, fun _ => rfl,
    fun _ hq => absurd hq List.not_mem_nil, fun hempty => ?_⟩
  · rw [hstore.flatMap_sended, h.flatMap_sended, buffer_store_self]
  · rw [hempty p List.mem_cons_self] at hlt
    exact iff_of_true rfl hlt

section Full

variable {data : List UInt8} (hsize : 0 < size) (hle : size - (d.buffer p).length ≤ data.length)

include hle in
theorem length_full (hroom : (d.buffer p).length < size) :
    (d.buffer p ++ data.take (size - (d.buffer p).length)).length = size := by
  rw [List.length_append, List.length_take]
  omega

include hsize hle in
theorem full_ne_nil (hroom : (d.buffer p).length < size) :
    d.buffer p ++ data.take (size - (d.buffer p).length) ≠ [] := by
  rw [← List.length_pos_iff, length_full hle hroom]
  exact hsize

include hsize hle in
/-- The first free buffer is filled, and it is the last one. -/
theorem took_last (h : d.Filled size ts [p]) {lists : Lists}
    (hfull : Driver.Filled size
      { d.store p (d.buffer p ++ data.take (size - (d.buffer p).length)) with lists := lists } (ts ++ [p]) []) :
    Took size d ts [p] data
      { d.store p (d.buffer p ++ data.take (size - (d.buffer p).length)) with lists := lists } [p] []
      (data.drop (size - (d.buffer p).length)) := by
  refine ⟨hfull, rfl, ⟨_, (List.take_append_drop _ _).symm, ?_⟩,
    fun q hq => buffer_store_of_ne (List.ne_of_not_mem_cons hq) d _, rfl, fun hc => absurd rfl hc, fun q hq => ?_,
    fun hempty => iff_of_false (List.cons_ne_nil p []) ?_⟩
  · show [p].flatMap (d.store p _).buffer = _
    rw [List.flatMap_singleton, List.flatMap_singleton, buffer_store_self]
  · rw [List.mem_singleton.mp hq]
    show (d.store p _).buffer p ≠ []
    rw [buffer_store_self]
    exact full_ne_nil hsize hle (h.room p List.mem_cons_self)
  · rw [hempty p List.mem_cons_self] at hle
    exact Nat.not_lt_of_le hle

include hsize hle in
/-- The first free buffer is filled, and the others take of what it leaves. -/
theorem took_full (h : d.Filled size ts (p :: sd)) {lists : Lists} {d' : Driver} {full sd' : List Ptr}
    {rest : List UInt8}
    (ht : Took size
      { d.store p (d.buffer p ++ data.take (size - (d.buffer p).length)) with lists := lists } (ts ++ [p]) sd
      (data.drop (size - (d.buffer p).length)) d' full sd' rest) :
    Took size d ts (p :: sd) data d' (p :: full) sd' rest := by
  have hp : p ∉ sd := (List.nodup_cons.mp h.lists.sended.nodup).1
  have hroom := h.room p List.mem_cons_self
  have hbuf : d'.buffer p = d.buffer p ++ data.take (size - (d.buffer p).length) :=
    (ht.frame p hp).trans (buffer_store_self d p _)
  obtain ⟨taken, htaken, hbytes⟩ := ht.bytes
  refine ⟨?_, by rw [ht.moved, List.cons_append], ⟨data.take (size - (d.buffer p).length) ++ taken, ?_, ?_⟩, ?_,
    ht.rx, ht.ended, fun q hq => ?_, fun hempty => iff_of_false (List.cons_ne_nil p full) ?_⟩
  · have happ := ht.filled
    rwa [List.append_assoc] at happ
  · rw [List.append_assoc, ← htaken, List.take_append_drop]
  · rw [List.flatMap_cons, hbytes, hbuf, h.flatMap_sended]
    show _ ++ (sd.flatMap (d.store p _).buffer ++ taken) = _
    rw [flatMap_store hp, h.flatMap_rest, List.nil_append, List.append_assoc]
  · intro q hq
    rw [ht.frame q fun hmem => hq (List.mem_cons_of_mem p hmem)]
    exact buffer_store_of_ne (List.ne_of_not_mem_cons hq) d _
  · rcases List.mem_cons.mp hq with rfl | hq
    · rw [hbuf]
      exact full_ne_nil hsize hle hroom
    · exact ht.full_ne q hq
  · rw [hempty p List.mem_cons_self] at hle
    exact Nat.not_lt_of_le hle

end Full

theorem sdioLoadLoop_took {n : ℕ} {data : List UInt8} (h : d.Filled size ts sd) (hsd : sd ≠ []) (hsize : 0 < size)
    (hn : data.length < n) : ∃ d' len rest full sd',
      sdioLoadLoop size n d data = some (d', len, rest) ∧ Took size d ts sd data d' full sd' rest := by
  induction n generalizing d ts sd data with
  | zero => exact absurd hn (Nat.not_lt_zero _)
  | succ n ih =>
    unfold sdioLoadLoop
    by_cases hdata : data = []
    · subst hdata
      exact ⟨d, 0, [], [], sd, rfl, took_nil h hsize⟩
    rw [if_neg hdata]
    obtain ⟨p, sd, rfl⟩ := List.exists_cons_of_ne_nil hsd
    have hhead : d.lists.pHeadSended = some p := h.lists.sended.head_eq
    have hroom := h.room p List.mem_cons_self
    simp only [hhead, Option.bind_eq_bind, Option.bind_some]
    by_cases hlt : data.length < size - (d.buffer p).length
    · rw [if_pos hlt]
      exact ⟨_, 0, [], [], p :: sd, rfl, took_part h hlt⟩
    · have hle := Nat.le_of_not_lt hlt
      obtain ⟨lists, hs, hfull⟩ := h.sendFull (Nat.le_of_eq (length_full hle hroom))
      rw [if_neg hlt, hs]
      simp only [Option.bind_some, hfull.lists.sended.isNone_head]
      by_cases hsd' : sd = []
      · subst hsd'
        exact ⟨_, _, _, [p], [], rfl, took_last hsize hle h hfull⟩
      · rw [List.isEmpty_eq_false_iff.mpr hsd']
        have hn' : (data.drop (size - (d.buffer p).length)).length < n := by
          rw [List.length_drop]
          omega
        obtain ⟨d', len, rest, full, sd', hloop, ht⟩ := ih hfull hsd' hn'
        simp only [Bool.false_eq_true, if_false, hloop, Option.bind_some]
        exact ⟨d', _, rest, p :: full, sd', rfl, took_full hsize hle h ht⟩

/-! ### The first buffer to send -/

/-- There is nothing to send, or the first buffer is loaded, or it has been read and the interrupt is pending. -/
inductive Driver.Going (d : Driver) : List Ptr → Prop
  | idle (hr : d.rx.hasRead = true) (hl : d.rx.link = false) (he : d.rx.eof = false) : Going d []
  | loaded {p : Ptr} {ts : List Ptr} (hl : d.rx.link = true) (he : d.rx.eof = false) (hb : d.rx.bufPtr = some p)
    (hd : d.rx.datalen = (d.buffer p).length) : Going d (p :: ts)
  | read {p : Ptr} {ts : List Ptr} (hl : d.rx.link = false) (he : d.rx.eof = true) : Going d (p :: ts)

/-- There is a buffer to send, but none is loaded, and no interrupt will load one. -/
def Driver.Stalled (d : Driver) : Prop := d.lists.pHeadToSend ≠ none ∧ d.rx.link = false ∧ d.rx.eof = false

/-- Those to send that the host has not read. -/
def Driver.unread (d : Driver) (ts : List Ptr) : List Ptr := if d.rx.eof then ts.tail else ts

theorem unread_of_not_eof (he : d.rx.eof = false) (ts : List Ptr) : d.unread ts = ts := by
  unfold Driver.unread
  rw [he]
  rfl

theorem unread_of_eof (he : d.rx.eof = true) (ts : List Ptr) : d.unread ts = ts.tail := by
  unfold Driver.unread
  rw [he]
  rfl

theorem mem_of_mem_unread (h : p ∈ d.unread ts) : p ∈ ts := by
  unfold Driver.unread at h
  split at h
  · exact List.mem_of_mem_tail h
  · exact h

theorem Driver.Going.not_stalled (hg : d.Going ts) (h : d.Filled size ts sd) : ¬ d.Stalled := by
  rintro ⟨hhead, hl, he⟩
  cases hg with
  | idle => exact hhead h.lists.toSend.head_eq
  | loaded hl' => exact absurd (hl.symm.trans hl') Bool.false_ne_true
  | read _ he' => exact absurd (he.symm.trans he') Bool.false_ne_true

theorem rxBuffLoadDone_zero (size : ℕ) (rx : Rx) : rxBuffLoadDone size rx 0 = rx := if_pos rfl

theorem rxBuffLoadDone_of_le {n : ℕ} (h0 : n ≠ 0) (h : n ≤ size) (rx : Rx) : rxBuffLoadDone size rx n =
    { rx with datalen := n, rdEmpty := false, rxAvailible := true, rxLength := n, link := true } := by
  unfold rxBuffLoadDone
  rw [if_neg h0, if_neg (Nat.not_lt_of_le h)]

/-- A buffer is loaded if it has a byte. -/
theorem loadHead_rx (hhead : d.lists.pHeadToSend = some p) (hfits : (d.buffer p).length ≤ size)
    (hl : d.rx.link = false) (he : d.rx.eof = false) :
    ∃ rx, loadHead size d = some { d with rx := rx } ∧ rx.eof = false ∧
      (d.buffer p ≠ [] → rx.link = true ∧ rx.bufPtr = some p ∧ rx.datalen = (d.buffer p).length) ∧
      (d.buffer p = [] → rx.link = false) := by
  unfold loadHead
  rw [hhead, Option.map_some]
  refine ⟨_, rfl, ?_⟩
  by_cases hnil : d.buffer p = []
  · have hrx : rxBuffLoadDone size { d.rx with bufPtr := some p } (d.buffer p).length =
        { d.rx with bufPtr := some p } := by
      rw [hnil, List.length_nil, rxBuffLoadDone_zero]
    rw [hrx]
    exact ⟨he, fun hne => absurd hnil hne, fun _ => hl⟩
  · rw [rxBuffLoadDone_of_le (fun h0 => hnil (List.length_eq_zero_iff.mp h0)) hfits]
    exact ⟨he, fun _ => ⟨rfl, rfl, rfl⟩, fun hc => absurd hc hnil⟩

theorem sdioTryToLoad_eq (d : Driver) (hr : d.rx.hasRead = true) (hhead : d.lists.pHeadToSend = some p) :
    sdioTryToLoad size d = loadHead size d := by
  unfold sdioTryToLoad
  rw [hr, hhead]
  rfl

theorem loadHead_is (h : d.Filled size (p :: ts) sd) (hl : d.rx.link = false) (he : d.rx.eof = false) :
    ∃ d', loadHead size d = some d' ∧ d'.Filled size (p :: ts) sd ∧ d'.buffer = d.buffer ∧ d'.rx.eof = false ∧
      (d.buffer p ≠ [] → d'.Going (p :: ts)) ∧ (d.buffer p = [] → d'.Stalled) := by
  have hhead : d.lists.pHeadToSend = some p := h.lists.toSend.head_eq
  obtain ⟨rx, hload, heof, hne, hnil⟩ := loadHead_rx hhead (h.fits p List.mem_cons_self) hl he
  refine ⟨_, hload, ⟨h.lists, h.fits, h.room, h.rest⟩, rfl, heof, fun hp => ?_, fun hp => ⟨?_, hnil hp, heof⟩⟩
  · obtain ⟨hlink, hptr, hlen⟩ := hne hp
    exact .loaded hlink heof hptr hlen
  · show d.lists.pHeadToSend ≠ none
    rw [hhead]
    exact Option.some_ne_none p

/-- The end of `sdio_load_data` with nothing to send: the first free buffer is. -/
theorem loadFirst_is (h : d.Filled size [] (p :: sd)) (hr : d.rx.hasRead = true) (hl : d.rx.link = false)
    (he : d.rx.eof = false) : ∃ d', loadFirst size d = some d' ∧ d'.Filled size [p] sd ∧ d'.buffer = d.buffer ∧
      d'.rx.eof = false ∧ (d.buffer p ≠ [] → d'.Going [p]) ∧ (d.buffer p = [] → d'.Stalled) := by
  obtain ⟨lists, hs, hfirst⟩ := h.sendFirst
  obtain ⟨d', hd', hrest⟩ := loadHead_is hfirst hl he
  refine ⟨d', ?_, hrest⟩
  unfold loadFirst
  rw [h.lists.toSend.head_eq, hs]
  refine Eq.trans (sdioTryToLoad_eq _ ?_ hfirst.lists.toSend.head_eq) hd'
  exact hr

/-- The end of `sdio_load_data` with something to send. -/
theorem loadFirst_of_cons (h : d.Filled size (p :: ts) sd) : loadFirst size d = some d := by
  unfold loadFirst
  rw [h.lists.toSend.head_eq]
  rfl

/-- The end of `sdio_read_done_process`: the next buffer is loaded, or the first of those sent if it has bytes. -/
theorem loadNext_is (h : d.Filled size ts sd) (hts : ∀ p ∈ ts, d.buffer p ≠ []) (hr : d.rx.hasRead = true)
    (hl : d.rx.link = false) (he : d.rx.eof = false) :
    ∃ d' ts' sd', loadNext size d = some d' ∧ d'.Filled size ts' sd' ∧ d'.buffer = d.buffer ∧ d'.rx.eof = false ∧
      d'.Going ts' ∧ ((ts' = ts ∧ sd' = sd ∧ (ts = [] → ∀ p ∈ sd, d.buffer p = [])) ∨
        (ts = [] ∧ ∃ p, sd = p :: sd' ∧ d.buffer p ≠ [] ∧ ts' = [p])) := by
  unfold loadNext
  cases ts with
  | cons p ts =>
    obtain ⟨d', hd', hf, hb, he', hgo, -⟩ := loadHead_is h hl he
    rw [h.lists.toSend.head_eq]
    exact ⟨d', p :: ts, sd, hd', hf, hb, he', hgo (hts p List.mem_cons_self),
      Or.inl ⟨rfl, rfl, fun hc => absurd hc (List.cons_ne_nil p ts)⟩⟩
  | nil =>
    rw [h.lists.toSend.head_eq, h.lists.sended.head_eq]
    cases sd with
    | nil =>
      refine ⟨d, [], [], rfl, h, rfl, he, .idle hr hl he, Or.inl ⟨rfl, rfl, fun _ _ hq => ?_⟩⟩
      exact absurd hq List.not_mem_nil
    | cons p sd =>
      show ∃ d' ts' sd', (if d.buffer p = [] then some d else d.lists.sendFirst.bind fun lists =>
        loadHead size { d with lists := lists }) = some d' ∧ _
      by_cases hp : d.buffer p = []
      · rw [if_pos hp]
        refine ⟨d, [], p :: sd, rfl, h, rfl, he, .idle hr hl he, Or.inl ⟨rfl, rfl, fun _ q hq => ?_⟩⟩
        rcases List.mem_cons.mp hq with rfl | hq
        · exact hp
        · exact h.rest q hq
      · rw [if_neg hp]
        obtain ⟨lists, hs, hfirst⟩ := h.sendFirst
        obtain ⟨d', hd', hf, hb, he', hgo, -⟩ := loadHead_is hfirst hl he
        rw [hs]
        exact ⟨d', [p], sd, hd', hf, hb, he', hgo hp, Or.inr ⟨rfl, p, rfl, hp, rfl⟩⟩

/-- The interrupt, when the first buffer has been read. -/
theorem sdioSlaveIsr_is (h : d.Filled size (p :: ts) sd) (hsize : 0 < size) (hts : ∀ q ∈ ts, d.buffer q ≠ [])
    (hl : d.rx.link = false) : ∃ d' ts' sd', sdioSlaveIsr size d = some d' ∧ d'.Filled size ts' sd' ∧
      d'.buffer = (d.store p []).buffer ∧ d'.rx.eof = false ∧ d'.Going ts' ∧
      ((ts' = ts ∧ sd' = sd ++ [p] ∧ (ts = [] → ∀ q ∈ sd ++ [p], d'.buffer q = [])) ∨
        (ts = [] ∧ ∃ q, sd ++ [p] = q :: sd' ∧ d'.buffer q ≠ [] ∧ ts' = [q])) := by
  have hpt : p ∉ ts := (List.nodup_cons.mp h.lists.toSend.nodup).1
  obtain ⟨lists, hs, hf⟩ := h.readDone hsize
  have hts' : ∀ q ∈ ts, (d.store p []).buffer q ≠ [] := by
    intro q hq
    rw [buffer_store_of_ne (ne_of_mem_of_not_mem hq hpt)]
    exact hts q hq
  obtain ⟨d', ts', sd', hd', hf', hb, he, hgo, hcases⟩ := loadNext_is
    (d := { d.store p [] with
      lists := lists
      rx := { rxBuffReadDone { d.rx with eof := false } with hasRead := true } }) ⟨hf.lists, hf.fits, hf.room, hf.rest⟩
    hts' rfl hl rfl
  unfold sdioSlaveIsr sdioReadDoneProcess
  rw [h.lists.toSend.head_eq, hs]
  rw [← hb] at hcases
  exact ⟨d', ts', sd', hd', hf', hb, he, hgo, hcases⟩

/-- The buffers and what is loaded of them. -/
structure Driver.Sending (size : ℕ) (d : Driver) (ts sd : List Ptr) : Prop where
  filled : d.Filled size ts sd
  /-- Only the first buffer to send may have no bytes. -/
  sent : ∀ p ∈ ts.tail, d.buffer p ≠ []
  mode : d.Going ts ∨ d.Stalled

/-- What the driver keeps between the calls: with nothing to send there are no bytes at all. -/
structure Driver.Inv (size : ℕ) (d : Driver) (ts sd : List Ptr) : Prop extends Driver.Sending size d ts sd where
  start : ts = [] → ∀ p ∈ sd, d.buffer p = []

/-- What is loaded stays loaded. -/
theorem Driver.Going.of_eq {d' : Driver} (h : d.Going ts) (hrx : d'.rx = d.rx)
    (hb : ∀ p ∈ ts, d'.buffer p = d.buffer p) : d'.Going ts := by
  cases h with
  | idle hr hl he => exact .idle (hrx ▸ hr) (hrx ▸ hl) (hrx ▸ he)
  | @loaded p ts hl he hp hd =>
    refine .loaded (hrx ▸ hl) (hrx ▸ he) (hrx ▸ hp) ?_
    rw [hrx, hb p List.mem_cons_self]
    exact hd
  | read hl he => exact .read (hrx ▸ hl) (hrx ▸ he)

/-- A buffer to send stays loaded while buffers are put behind it. -/
theorem Driver.Going.append {d' : Driver} (h : d.Going (p :: ts)) (hrx : d'.rx = d.rx) (hb : d'.buffer p = d.buffer p)
    {full : List Ptr} : d'.Going (p :: ts ++ full) := by
  cases h with
  | loaded hl he hp hd => exact .loaded (hrx ▸ hl) (hrx ▸ he) (hrx ▸ hp) (by rw [hrx, hb]; exact hd)
  | read hl he => exact .read (hrx ▸ hl) (hrx ▸ he)

/-- What a call of `sdio_load_data` does: what it takes goes behind all the bytes, and the driver stalls
if it had nothing to send and the data is not of at least a byte and less than a buffer. -/
structure Loaded (size : ℕ) (d : Driver) (ts sd : List Ptr) (data : List UInt8) (d' : Driver) (ts' sd' : List Ptr)
    (rest : List UInt8) : Prop where
  inv : d'.Inv size ts' sd'
  moved : ts' ++ sd' = ts ++ sd
  bytes : ∃ taken, data = taken ++ rest ∧
    (d'.unread ts' ++ sd').flatMap d'.buffer = (d.unread ts ++ sd).flatMap d.buffer ++ taken
  stalls : ¬ d.Stalled → (d'.Stalled ↔ ts = [] ∧ ¬ (0 < data.length ∧ data.length < size))
  stays : d.Stalled → d'.Stalled

/-- A call with something to send already. -/
theorem loaded_behind {data rest : List UInt8} {d' : Driver} {full sd' : List Ptr} (h : d.Inv size (p :: ts) sd)
    (ht : Took size d (p :: ts) sd data d' full sd' rest) :
    Loaded size d (p :: ts) sd data d' (p :: ts ++ full) sd' rest := by
  have happ : ∀ q ∈ p :: ts, d'.buffer q = d.buffer q := fun q hq => ht.frame q (h.filled.lists.apart q hq)
  have hunread : d'.unread (p :: ts ++ full) = d.unread (p :: ts) ++ full := by
    unfold Driver.unread
    rw [ht.rx]
    split <;> rfl
  have hstalled : d'.Stalled ↔ d.Stalled := by
    unfold Driver.Stalled
    rw [ht.rx, ht.filled.lists.toSend.head_eq, h.filled.lists.toSend.head_eq]
    rfl
  obtain ⟨taken, hdata, hbytes⟩ := ht.bytes
  refine ⟨⟨⟨ht.filled, ?_, ?_⟩, fun hc => absurd hc (List.cons_ne_nil _ _)⟩, ?_, ⟨taken, hdata, ?_⟩, fun hns => ?_,
    hstalled.mpr⟩
  · intro q hq
    rcases List.mem_append.mp hq with hq | hq
    · rw [happ q (List.mem_cons_of_mem p hq)]
      exact h.sent q hq
    · exact ht.full_ne q hq
  · rcases h.mode with hgo | hst
    · exact Or.inl (hgo.append ht.rx (happ p List.mem_cons_self))
    · exact Or.inr (hstalled.mpr hst)
  · rw [List.append_assoc, ← ht.moved]
  · rw [hunread, List.append_assoc, ← ht.moved, List.flatMap_append, List.flatMap_append, hbytes, ← List.append_assoc,
      List.flatMap_congr fun q hq => happ q (mem_of_mem_unread hq)]
  · rw [hstalled]
    exact ⟨fun hst => absurd hst hns, fun hc => absurd hc.1 (List.cons_ne_nil p ts)⟩

/-- With nothing to send there is no packet on its way. -/
theorem Driver.Sending.idle (h : d.Sending size [] sd) :
    d.rx.hasRead = true ∧ d.rx.link = false ∧ d.rx.eof = false := by
  rcases h.mode with hgo | hst
  · cases hgo with
    | idle hr hl he => exact ⟨hr, hl, he⟩
  · exact absurd h.filled.lists.toSend.head_eq hst.1

/-- A call with nothing to send, of so many bytes that they fill a buffer. -/
theorem loaded_full {data rest : List UInt8} {d' : Driver} {full sd' : List Ptr} (h : d.Inv size [] sd)
    (hfull : p ∈ full) (ht : Took size d [] sd data d' full sd' rest) :
    Loaded size d [] sd data d' full sd' rest := by
  obtain ⟨-, hl, he⟩ := h.toSending.idle
  obtain ⟨taken, hdata, hbytes⟩ := ht.bytes
  have hst : d'.Stalled := by
    unfold Driver.Stalled
    rw [ht.rx, ht.filled.lists.toSend.head_eq, Ne, List.head?_eq_none_iff]
    exact ⟨List.ne_nil_of_mem hfull, hl, he⟩
  have he' : d'.rx.eof = false := ht.rx ▸ he
  have hlen : ¬ data.length < size := fun hlt => List.ne_nil_of_mem hfull ((ht.none (h.start rfl)).mpr hlt)
  refine ⟨⟨⟨ht.filled, fun q hq => ht.full_ne q (List.mem_of_mem_tail hq), Or.inr hst⟩,
    fun hc => absurd hc (List.ne_nil_of_mem hfull)⟩, ht.moved.symm, ⟨taken, hdata, ?_⟩,
    fun _ => ⟨fun _ => ⟨rfl, fun hc => hlen hc.2⟩, fun _ => hst⟩, fun _ => hst⟩
  rw [unread_of_not_eof he', unread_of_not_eof he, ← ht.moved, hbytes, List.nil_append]

/-- A call with nothing to send, of less than a buffer: the first free buffer is the one to send. -/
theorem loaded_first {data rest : List UInt8} {d' : Driver} {sd' : List Ptr} (h : d.Inv size [] sd) (hsd : sd ≠ [])
    (ht : Took size d [] sd data d' [] sd' rest) : ∃ d₁ ts₁ sd₁,
      loadFirst size d' = some d₁ ∧ Loaded size d [] sd data d₁ ts₁ sd₁ rest := by
  obtain ⟨hr, hl, he⟩ := h.toSending.idle
  obtain ⟨taken, hdata, hbytes⟩ := ht.bytes
  have hmoved := ht.moved
  obtain rfl : sd = sd' := hmoved
  obtain rfl : rest = [] := ht.ended hsd
  obtain rfl : data = taken := hdata.trans (List.append_nil taken)
  obtain ⟨p, sd, rfl⟩ := List.exists_cons_of_ne_nil hsd
  obtain ⟨d₁, hload, hf, hb, he₁, hgo, hst⟩ := loadFirst_is ht.filled (ht.rx ▸ hr) (ht.rx ▸ hl) (ht.rx ▸ he)
  have hp : d'.buffer p = data := by
    have hnil : sd.flatMap d'.buffer = [] := flatMap_empty ht.filled.rest
    rw [flatMap_empty (h.start rfl), List.flatMap_cons, hnil, List.append_nil, List.nil_append] at hbytes
    exact hbytes
  have hlen : data.length < size := (ht.none (h.start rfl)).mp rfl
  have hgo' : data ≠ [] → d₁.Going [p] := by
    rw [← hp]
    exact hgo
  have hst' : data = [] → d₁.Stalled := by
    rw [← hp]
    exact hst
  have hmode : d₁.Stalled ↔ data = [] := by
    refine ⟨fun hs₁ => ?_, hst'⟩
    by_contra hne
    exact (hgo' hne).not_stalled hf hs₁
  refine ⟨d₁, [p], sd, hload,
    ⟨⟨hf, fun _ hq => absurd hq List.not_mem_nil, ?_⟩, fun hc => absurd hc (List.cons_ne_nil p [])⟩, rfl,
    ⟨data, (List.append_nil data).symm, ?_⟩, fun _ => ?_, fun hc => absurd h.filled.lists.toSend.head_eq hc.1⟩
  · by_cases hnil : data = []
    · exact Or.inr (hst' hnil)
    · exact Or.inl (hgo' hnil)
  · rw [unread_of_not_eof he₁, unread_of_not_eof he, hb]
    exact hbytes
  · rw [hmode, ← List.length_eq_zero_iff]
    refine ⟨fun h0 => ⟨rfl, fun hc => ?_⟩, fun hc => ?_⟩
    · omega
    · by_contra h0
      exact hc.2 ⟨Nat.pos_of_ne_zero h0, hlen⟩

theorem sdioLoadData_loaded (h : d.Inv size ts sd) (hne : ts ++ sd ≠ []) (hsize : 0 < size) (data : List UInt8) :
    ∃ d' len rest ts' sd', sdioLoadData size d data = some (d', len, rest) ∧
      Loaded size d ts sd data d' ts' sd' rest := by
  unfold sdioLoadData
  rw [h.filled.lists.sended.isNone_head]
  by_cases hsd : sd = []
  · subst hsd
    refine ⟨d, 0, data, ts, [], rfl, h, rfl, ⟨[], rfl, (List.append_nil _).symm⟩, fun hns => ?_, id⟩
    rw [List.append_nil] at hne
    exact ⟨fun hst => absurd hst hns, fun hc => absurd hc.1 hne⟩
  · obtain ⟨d', len, rest, full, sd', hloop, ht⟩ :=
      sdioLoadLoop_took h.filled hsd hsize (Nat.lt_succ_self data.length)
    rw [List.isEmpty_eq_false_iff.mpr hsd]
    simp only [Bool.false_eq_true, if_false, Option.bind_eq_bind, hloop, Option.bind_some]
    cases ts with
    | cons p ts =>
      rw [loadFirst_of_cons ht.filled]
      exact ⟨d', len, rest, _, sd', rfl, loaded_behind h ht⟩
    | nil =>
      cases full with
      | cons p full =>
        rw [loadFirst_of_cons ht.filled]
        exact ⟨d', len, rest, _, sd', rfl, loaded_full h List.mem_cons_self ht⟩
      | nil =>
        obtain ⟨d₁, ts₁, sd₁, hload, hl⟩ := loaded_first h hsd ht
        rw [hload]
        exact ⟨d₁, len, rest, ts₁, sd₁, rfl, hl⟩

/-- What the host reads of the buffer that is loaded. -/
def Driver.shown (d : Driver) : List UInt8 :=
  match d.rx.bufPtr with
  | some p => (d.buffer p).take d.rx.datalen
  | none => []

def Driver.hostRead (d : Driver) : Driver := { d with rx := { d.rx with link := false, eof := true } }

/-! ### The system -/

def RX_BUFFER_SIZE : ℕ := 512

def RX_BUFFER_NUM : ℕ := 4

structure State where
  driver : Driver
  /-- A null pointer was followed. -/
  failed : Bool
  /-- What `sdio_load_data` took, and what the host has read. -/
  accepted : List UInt8
  delivered : List UInt8

inductive Event
  | load (data : List UInt8)
  /-- The host reads the buffer that is loaded. -/
  | hostRead
  | isr

def step (s : State) : Event → Option State
  | .load data =>
    match sdioLoadData RX_BUFFER_SIZE s.driver data with
    | some (d, _, rest) =>
      some { s with driver := d, accepted := s.accepted ++ data.take (data.length - rest.length) }
    | none => some { s with failed := true }
  | .hostRead =>
    if s.driver.rx.link then
      some { s with driver := s.driver.hostRead, delivered := s.delivered ++ s.driver.shown }
    else none
  | .isr =>
    if s.driver.rx.eof then
      match sdioSlaveIsr RX_BUFFER_SIZE s.driver with
      | some d => some { s with driver := d }
      | none => some { s with failed := true }
    else none

def machine : Machine State Event where
  init := { driver := sdioSlaveInit RX_BUFFER_NUM, failed := false, accepted := [], delivered := [] }
  step := step

/-- What a run keeps. -/
structure Inv (s : State) (ts sd : List Ptr) : Prop where
  ok : s.failed = false
  driver : s.driver.Inv RX_BUFFER_SIZE ts sd
  all : (ts ++ sd).Perm (List.range RX_BUFFER_NUM)
  order : s.delivered ++ (s.driver.unread ts ++ sd).flatMap s.driver.buffer = s.accepted

theorem inv_init : Inv machine.init [] [0, 1, 2, 3] where
  ok := rfl
  driver :=
    { filled :=
        { lists :=
            ⟨IsQueue.empty _ _, ⟨⟨rfl, rfl, rfl, rfl, rfl⟩, fun _ h => h, by decide⟩,
              fun _ h => absurd h List.not_mem_nil⟩
          fits := fun _ h => absurd h List.not_mem_nil
          room := fun _ _ => Nat.succ_pos 511
          rest := fun _ _ => rfl }
      sent := fun _ h => absurd h List.not_mem_nil
      mode := Or.inl (.idle rfl rfl rfl)
      start := fun _ _ _ => rfl }
  all := List.Perm.refl _
  order := rfl

/-- The host reads the whole of the first buffer to send. -/
theorem Driver.Sending.hostRead (h : d.Sending size ts sd) (hl : d.rx.link = true) :
    d.hostRead.Sending size ts sd ∧
      d.shown ++ (d.hostRead.unread ts).flatMap d.buffer = (d.unread ts).flatMap d.buffer := by
  have hgo : d.Going ts := h.mode.resolve_right fun hst => Bool.false_ne_true (hst.2.1.symm.trans hl)
  cases hgo with
  | idle _ hl' => exact absurd (hl'.symm.trans hl) Bool.false_ne_true
  | read hl' => exact absurd (hl'.symm.trans hl) Bool.false_ne_true
  | loaded _ he hb hd =>
    refine ⟨⟨⟨h.filled.lists, h.filled.fits, h.filled.room, h.filled.rest⟩, h.sent, Or.inl (.read rfl rfl)⟩, ?_⟩
    have hshown : ∀ p, d.rx.bufPtr = some p → d.rx.datalen = (d.buffer p).length → d.shown = d.buffer p := by
      intro p hb hd
      unfold Driver.shown
      rw [hb, hd]
      exact List.take_length
    have heof : d.hostRead.rx.eof = true := rfl
    rw [unread_of_not_eof he, unread_of_eof heof, hshown _ hb hd]
    rfl

/-- The interrupt puts the buffer that was read behind all others. -/
theorem Driver.Inv.isr (h : d.Inv size ts sd) (hsize : 0 < size) (he : d.rx.eof = true) :
    ∃ d' ts' sd', sdioSlaveIsr size d = some d' ∧ d'.Inv size ts' sd' ∧ (ts' ++ sd').Perm (ts ++ sd) ∧
      (d'.unread ts' ++ sd').flatMap d'.buffer = (d.unread ts ++ sd).flatMap d.buffer ∧ ¬ d'.Stalled := by
  have hgo : d.Going ts := h.mode.resolve_right fun hst => Bool.false_ne_true (hst.2.2.symm.trans he)
  cases hgo with
  | idle _ _ he' => exact absurd (he'.symm.trans he) Bool.false_ne_true
  | loaded _ he' => exact absurd (he'.symm.trans he) Bool.false_ne_true
  | @read p ts hl =>
    obtain ⟨d', ts', sd', hd', hf, hb, he', hgo', hcases⟩ := sdioSlaveIsr_is h.filled hsize h.sent hl
    have hp : p ∉ ts ++ sd := by
      rw [List.mem_append, not_or]
      exact ⟨(List.nodup_cons.mp h.filled.lists.toSend.nodup).1, h.filled.lists.apart p List.mem_cons_self⟩
    have hmoved : ts' ++ sd' = ts ++ (sd ++ [p]) := by
      rcases hcases with ⟨rfl, rfl, -⟩ | ⟨rfl, q, hq, -, rfl⟩
      · rfl
      · exact hq.symm
    refine ⟨d', ts', sd', hd', ⟨⟨hf, ?_, Or.inl hgo'⟩, ?_⟩, ?_, ?_, hgo'.not_stalled hf⟩
    · rcases hcases with ⟨rfl, -, -⟩ | ⟨-, q, -, -, rfl⟩
      · intro q hq
        have hmem := List.mem_of_mem_tail hq
        rw [hb, buffer_store_of_ne (ne_of_mem_of_not_mem (List.mem_append_left sd hmem) hp)]
        exact h.sent q hmem
      · exact fun _ hq => absurd hq List.not_mem_nil
    · rintro rfl
      rcases hcases with ⟨rfl, rfl, hstart⟩ | ⟨-, q, -, -, hq⟩
      · exact hstart rfl
      · exact absurd hq.symm (List.cons_ne_nil q [])
    · rw [hmoved, ← List.append_assoc]
      exact List.perm_append_singleton p (ts ++ sd)
    · rw [unread_of_not_eof he', unread_of_eof he, hmoved, hb, ← List.append_assoc, List.flatMap_append,
        flatMap_store hp, List.flatMap_singleton, buffer_store_self, List.append_nil]
      rfl

/-- A call that finds nothing to send has at least a byte and less than a buffer. -/
def Starts (s : State) : Event → Prop
  | .load data => s.driver.lists.pHeadToSend = none → 0 < data.length ∧ data.length < RX_BUFFER_SIZE
  | _ => True

theorem inv_step {s s' : State} {e : Event} (h : Inv s ts sd) (hs : step s e = some s') :
    ∃ ts' sd', Inv s' ts' sd' ∧ (s.driver.Stalled → s'.driver.Stalled ∧ s'.delivered = s.delivered) ∧
      (¬ s.driver.Stalled → (s'.driver.Stalled ↔ ¬ Starts s e)) := by
  cases e with
  | load data =>
    have hne : ts ++ sd ≠ [] := by
      intro hnil
      have hlen := h.all.length_eq
      rw [hnil, List.length_range] at hlen
      exact absurd hlen (Nat.succ_ne_zero 3).symm
    obtain ⟨d', len, rest, ts', sd', hload, hl⟩ := sdioLoadData_loaded h.driver hne (Nat.succ_pos 511) data
    unfold step at hs
    simp only [hload] at hs
    obtain rfl := Option.some.inj hs
    obtain ⟨taken, hdata, hbytes⟩ := hl.bytes
    refine ⟨ts', sd', ⟨h.ok, hl.inv, ?_, ?_⟩, fun hst => ⟨hl.stays hst, rfl⟩, fun hns => ?_⟩
    · rw [hl.moved]
      exact h.all
    · have htake : data.take (data.length - rest.length) = taken := by
        rw [hdata, List.length_append, Nat.add_sub_cancel, List.take_left]
      show s.delivered ++ (d'.unread ts' ++ sd').flatMap d'.buffer =
        s.accepted ++ data.take (data.length - rest.length)
      rw [hbytes, ← List.append_assoc, h.order, htake]
    · rw [hl.stalls hns]
      unfold Starts
      rw [h.driver.filled.lists.toSend.head_eq, List.head?_eq_none_iff, Classical.not_imp]
  | hostRead =>
    obtain ⟨hlink, hs'⟩ := Option.ite_none_right_eq_some.mp hs
    obtain rfl := Option.some.inj hs'
    obtain ⟨hinv, hshown⟩ := h.driver.hostRead hlink
    refine ⟨ts, sd, ⟨h.ok, ⟨hinv, h.driver.start⟩, h.all, ?_⟩, fun hst => ?_, fun _ => ?_⟩
    · show s.delivered ++ s.driver.shown ++ (s.driver.hostRead.unread ts ++ sd).flatMap s.driver.buffer = s.accepted
      rw [← h.order, List.flatMap_append, List.flatMap_append, ← hshown, List.append_assoc, List.append_assoc]
    · exact absurd (hst.2.1.symm.trans hlink) Bool.false_ne_true
    · exact ⟨fun hst => absurd hst.2.2.symm Bool.false_ne_true, fun hc => absurd trivial hc⟩
  | isr =>
    obtain ⟨heof, hs'⟩ := Option.ite_none_right_eq_some.mp hs
    obtain ⟨d', ts', sd', hisr, hinv, hperm, hbytes, hns⟩ := h.driver.isr (Nat.succ_pos 511) heof
    have hisr' : sdioSlaveIsr RX_BUFFER_SIZE s.driver = some d' := hisr
    rw [hisr'] at hs'
    obtain rfl := Option.some.inj hs'
    refine ⟨ts', sd', ⟨h.ok, hinv, hperm.trans h.all, ?_⟩, fun hst => ?_, fun _ => ?_⟩
    · rw [← h.order, ← hbytes]
    · exact absurd (hst.2.2.symm.trans heof) Bool.false_ne_true
    · exact ⟨fun hst => absurd hst hns, fun hc => absurd trivial hc⟩

/-- The lists are lists of all the buffers, and what the host has read and what the buffers hold is
what was taken. -/
structure InOrder (s : State) (ts sd : List Ptr) : Prop where
  ok : s.failed = false
  lists : s.driver.lists.Holds ts sd
  all : (ts ++ sd).Perm (List.range RX_BUFFER_NUM)
  order : s.delivered ++ (s.driver.unread ts ++ sd).flatMap s.driver.buffer = s.accepted

theorem inv_run (es : List Event) : machine.Throughout (fun s => ∃ ts sd, Inv s ts sd) machine.init es := by
  refine machine.throughout_of_inv (fun s e s' h hs => ?_) ⟨_, _, inv_init⟩ es
  obtain ⟨ts, sd, h⟩ := h
  obtain ⟨ts', sd', h', -⟩ := inv_step h hs
  exact ⟨ts', sd', h'⟩

theorem loads_in_order (es : List Event) :
    machine.Throughout (fun s => ∃ ts sd, InOrder s ts sd) machine.init es := by
  refine (inv_run es).mono machine fun s h => ?_
  obtain ⟨ts, sd, h⟩ := h
  exact ⟨ts, sd, h.ok, h.driver.filled.lists, h.all, h.order⟩

theorem never_stalls_iff (es : List Event) :
    machine.Throughout (fun s => ¬ s.driver.Stalled) machine.init es ↔ machine.Along Starts machine.init es := by
  refine machine.throughout_iff_along (I := fun s => (∃ ts sd, Inv s ts sd) ∧ ¬ s.driver.Stalled) (fun s h => h.2)
    (fun s e s' h hstarts hs => ?_) (fun s e s' h hstarts hs hns => ?_) ⟨⟨_, _, inv_init⟩, fun hst => hst.1 rfl⟩ es
  · obtain ⟨⟨ts, sd, h⟩, hns⟩ := h
    obtain ⟨ts', sd', h', -, hiff⟩ := inv_step h hs
    exact ⟨⟨ts', sd', h'⟩, fun hst => (hiff hns).mp hst hstarts⟩
  · obtain ⟨⟨ts, sd, h⟩, hns'⟩ := h
    obtain ⟨ts', sd', h', -, hiff⟩ := inv_step h hs
    exact hns ((hiff hns').mpr hstarts)

/-- A stalled driver never gives the host anything again. -/
theorem stalled_for_ever (es : List Event) : machine.Throughout (fun s => s.driver.Stalled → ∀ fs,
    machine.Throughout (fun s' => s'.driver.Stalled ∧ s'.delivered = s.delivered) s fs) machine.init es := by
  refine (inv_run es).mono machine fun s h hst fs => ?_
  refine (machine.throughout_of_inv (I := fun s' => (∃ ts sd, Inv s' ts sd) ∧ s'.driver.Stalled ∧
    s'.delivered = s.delivered) (fun s₁ e s₂ h hs => ?_) ⟨h, hst, rfl⟩ fs).mono machine fun _ h => h.2
  obtain ⟨⟨ts, sd, h⟩, hst, hd⟩ := h
  obtain ⟨ts', sd', h', hstays, -⟩ := inv_step h hs
  obtain ⟨hst', hd'⟩ := hstays hst
  exact ⟨⟨ts', sd', h'⟩, hst', hd'.trans hd⟩

end SdioSlv
end Netacademia
