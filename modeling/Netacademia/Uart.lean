/-
# The buffers of the UART

`driver/uart.c` of `orai_munka`, `development` and `driver_lib` with `UART_BUFF_EN`. What is
written goes through a ring buffer that the interrupt of the empty TX FIFO reads, and what is
received through one that the task fills; `tx_buff_enq` disables the TX interrupt while it
copies, and the RX interrupt stays disabled from the interrupt to the task, or to a read that
makes room. Interrupts are taken between any two statements, also between the read and the
write of `UART_INT_ENA`.

`uart_init` has got the memory of both buffers, and `os_printf` prints on UART1 (its
option 2), so that nothing but the driver writes to the FIFO of UART0.

* `tx_fifo`: what comes out on the line, stands in the FIFO and in the buffer is what was
  accepted, in its order; the interrupt never reads a buffer that is being written, and what
  is in the buffer does not stay in it.
* `rx_fifo`: the same of what is received; a reader that finds the buffer empty does not wait
  for bytes that are there.
-/
import Netacademia.Lib.Machine
import Netacademia.Lib.Ring

namespace Netacademia
namespace Uart

open Lib

def UART_TX_BUFFER_SIZE : ℕ := 256

def UART_RX_BUFFER_SIZE : ℕ := 256

def UART_FIFO_LEN : ℕ := 128

def uart_recvTaskQueueLen : ℕ := 10

/-! ### The ring buffers -/

structure UartBuffer where
  uartBuffSize : ℕ
  pUartBuff : List UInt8
  /-- The positions, as offsets from `pUartBuff`. -/
  pInPos : ℕ
  pOutPos : ℕ
  space : ℕ

/-- `Uart_Buf_Init`, in the memory that it gets. -/
def uartBufInit (mem : List UInt8) : UartBuffer := ⟨mem.length, mem, 0, 0, mem.length⟩

def uartBufCpy (pCur : UartBuffer) (pdata : List UInt8) : UartBuffer :=
  if pdata.length = 0 then pCur
  else
    let tail_len := pCur.uartBuffSize - pCur.pInPos
    if pdata.length ≤ tail_len then
      { pCur with
        pUartBuff := Ring.store pCur.pUartBuff pCur.pInPos pdata
        pInPos := (pCur.pInPos + pdata.length) % pCur.uartBuffSize
        space := pCur.space - pdata.length }
    else
      let pCur := { pCur with
        pUartBuff := Ring.store pCur.pUartBuff pCur.pInPos (pdata.take tail_len)
        pInPos := (pCur.pInPos + tail_len) % pCur.uartBuffSize
        space := pCur.space - tail_len }
      { pCur with
        pUartBuff := Ring.store pCur.pUartBuff pCur.pInPos (pdata.drop tail_len)
        pInPos := (pCur.pInPos + (pdata.length - tail_len)) % pCur.uartBuffSize
        space := pCur.space - (pdata.length - tail_len) }

/-- The loop of `tx_fifo_insert`, and the bytes that it writes to the FIFO. -/
def txFifoInsertLoop : ℕ → UartBuffer → List UInt8 × UartBuffer
  | 0, b => ([], b)
  | n + 1, b =>
    let r := txFifoInsertLoop n
      { b with pOutPos := if b.pOutPos + 1 = b.uartBuffSize then 0 else b.pOutPos + 1 }
    (b.pUartBuff.getD b.pOutPos 0 :: r.1, r.2)

def txFifoInsert (data_len : ℕ) (b : UartBuffer) : List UInt8 × UartBuffer :=
  let r := txFifoInsertLoop data_len b
  (r.1, { r.2 with pOutPos := r.2.pOutPos % r.2.uartBuffSize, space := r.2.space + data_len })

/-- What `rx_buff_deq` reads, up to its last test. -/
def rxBuffDeq (b : UartBuffer) (data_len : ℕ) : List UInt8 × UartBuffer :=
  let buf_len := b.uartBuffSize - b.space
  let tail_len := b.uartBuffSize - b.pOutPos
  let len_tmp := if buf_len < data_len then buf_len else data_len
  if b.pOutPos ≤ b.pInPos then
    ((b.pUartBuff.drop b.pOutPos).take len_tmp,
      { b with pOutPos := b.pOutPos + len_tmp, space := b.space + len_tmp })
  else if tail_len < len_tmp then
    let out := (b.pOutPos + tail_len) % b.uartBuffSize
    ((b.pUartBuff.drop b.pOutPos).take tail_len ++ (b.pUartBuff.drop out).take (len_tmp - tail_len),
      { b with
        pOutPos := (out + (len_tmp - tail_len)) % b.uartBuffSize
        space := b.space + tail_len + (len_tmp - tail_len) })
  else
    ((b.pUartBuff.drop b.pOutPos).take len_tmp,
      { b with pOutPos := (b.pOutPos + len_tmp) % b.uartBuffSize, space := b.space + len_tmp })

/-- The loop of `Uart_rx_buff_enq`, over the bytes that it reads of the FIFO. -/
def uartRxBuffEnqLoop (b : UartBuffer) : List UInt8 → UartBuffer
  | [] => b
  | fifo_data :: rest =>
    uartRxBuffEnqLoop { b with
      pUartBuff := b.pUartBuff.set b.pInPos fifo_data
      pInPos := if b.pInPos + 1 = b.uartBuffSize then 0 else b.pInPos + 1 } rest

/-- The bytes in the buffer, oldest first. -/
def UartBuffer.contents (b : UartBuffer) : List UInt8 :=
  Ring.contents b.pUartBuff b.pOutPos (b.uartBuffSize - b.space)

/-- A buffer of a size that holds `bytes`. -/
structure UartBuffer.Is (b : UartBuffer) (size : ℕ) (bytes : List UInt8) : Prop where
  size_pos : 0 < size
  size_eq : b.uartBuffSize = size
  length_eq : b.pUartBuff.length = size
  out_lt : b.pOutPos < size
  in_eq : b.pInPos = (b.pOutPos + bytes.length) % size
  space_eq : b.space + bytes.length = size
  contents_eq : Ring.contents b.pUartBuff b.pOutPos bytes.length = bytes

variable {b : UartBuffer} {size : ℕ} {bytes : List UInt8}

theorem UartBuffer.Is.used_eq (h : b.Is size bytes) : b.uartBuffSize - b.space = bytes.length := by
  rw [h.size_eq, ← h.space_eq, Nat.add_sub_cancel_left]

theorem UartBuffer.Is.contents (h : b.Is size bytes) : b.contents = bytes := by
  rw [UartBuffer.contents, h.used_eq, h.contents_eq]

theorem uartBufInit_is (mem : List UInt8) (h : 0 < mem.length) : (uartBufInit mem).Is mem.length [] where
  size_pos := h
  size_eq := rfl
  length_eq := rfl
  out_lt := h
  in_eq := (Nat.zero_mod _).symm
  space_eq := rfl
  contents_eq := Ring.contents_zero _ _

/-- A piece that does not go over the end is copied behind the bytes. -/
theorem store_is (h : b.Is size bytes) (pdata : List UInt8) (hs : pdata.length ≤ b.space)
    (ht : b.pInPos + pdata.length ≤ size) :
    UartBuffer.Is { b with
      pUartBuff := Ring.store b.pUartBuff b.pInPos pdata
      pInPos := (b.pInPos + pdata.length) % b.uartBuffSize
      space := b.space - pdata.length } size (bytes ++ pdata) where
  size_pos := h.size_pos
  size_eq := h.size_eq
  length_eq := (Ring.length_store (by rw [h.length_eq]; exact ht)).trans h.length_eq
  out_lt := h.out_lt
  in_eq := by
    show (b.pInPos + pdata.length) % b.uartBuffSize = _
    rw [h.size_eq, h.in_eq, Nat.mod_add_mod, List.length_append, Nat.add_assoc]
  space_eq := by
    show b.space - pdata.length + (bytes ++ pdata).length = size
    rw [List.length_append, ← h.space_eq]
    omega
  contents_eq := by
    have hn : bytes.length + pdata.length ≤ b.pUartBuff.length := by
      rw [h.length_eq, ← h.space_eq]
      omega
    have hpos : (b.pOutPos + bytes.length) % b.pUartBuff.length + pdata.length ≤ b.pUartBuff.length := by
      rw [h.length_eq, ← h.in_eq]
      exact ht
    have hstore := Ring.contents_store b.pUartBuff b.pOutPos hn hpos
    rw [h.length_eq, ← h.in_eq, h.contents_eq] at hstore
    rw [List.length_append]
    exact hstore

theorem uartBufCpy_is (h : b.Is size bytes) {pdata : List UInt8} (hs : pdata.length ≤ b.space) :
    (uartBufCpy b pdata).Is size (bytes ++ pdata) := by
  have hin : b.pInPos < size := by
    rw [h.in_eq]
    exact Nat.mod_lt _ h.size_pos
  unfold uartBufCpy
  split
  · rename_i h0
    rw [List.length_eq_zero_iff.mp h0, List.append_nil]
    exact h
  · simp only
    split
    · rename_i ht
      rw [h.size_eq] at ht
      exact store_is h pdata hs (by omega)
    · rename_i ht
      have ht' : size - b.pInPos < pdata.length := by rwa [h.size_eq, Nat.not_le] at ht
      have htake : (pdata.take (b.uartBuffSize - b.pInPos)).length = b.uartBuffSize - b.pInPos :=
        List.length_take_of_le (by rw [h.size_eq]; omega)
      have hdrop : (pdata.drop (b.uartBuffSize - b.pInPos)).length = pdata.length - (b.uartBuffSize - b.pInPos) :=
        List.length_drop
      have h1 := store_is h (pdata.take (b.uartBuffSize - b.pInPos)) (by rw [htake, h.size_eq]; omega)
        (by rw [htake, h.size_eq]; omega)
      rw [htake] at h1
      -- the first piece ends at the end of the storage
      have h0 : (b.pInPos + (b.uartBuffSize - b.pInPos)) % b.uartBuffSize = 0 := by
        rw [h.size_eq, Nat.add_sub_cancel' (Nat.le_of_lt hin), Nat.mod_self]
      have h2 := store_is h1 (pdata.drop (b.uartBuffSize - b.pInPos))
        (by
          show _ ≤ b.space - (b.uartBuffSize - b.pInPos)
          rw [hdrop]
          omega)
        (by
          show (b.pInPos + (b.uartBuffSize - b.pInPos)) % b.uartBuffSize + _ ≤ size
          rw [h0, hdrop, ← h.space_eq]
          omega)
      rw [hdrop, List.append_assoc, List.take_append_drop] at h2
      exact h2

/-- The oldest bytes are taken. -/
theorem advance_is (h : b.Is size bytes) {n : ℕ} (hn : n ≤ bytes.length) :
    UartBuffer.Is { b with pOutPos := (b.pOutPos + n) % size, space := b.space + n } size (bytes.drop n) where
  size_pos := h.size_pos
  size_eq := h.size_eq
  length_eq := h.length_eq
  out_lt := Nat.mod_lt _ h.size_pos
  in_eq := by
    show b.pInPos = ((b.pOutPos + n) % size + (bytes.drop n).length) % size
    rw [List.length_drop, Nat.mod_add_mod, h.in_eq, Nat.add_assoc, Nat.add_sub_cancel' hn]
  space_eq := by
    show b.space + n + (bytes.drop n).length = size
    rw [List.length_drop, ← h.space_eq]
    omega
  contents_eq := by
    have hle : bytes.length ≤ b.pUartBuff.length := by
      rw [h.length_eq, ← h.space_eq]
      exact Nat.le_add_left _ _
    have hdrop := Ring.drop_contents b.pUartBuff b.pOutPos hn hle
    rw [h.contents_eq] at hdrop
    show Ring.contents b.pUartBuff ((b.pOutPos + n) % size) (bytes.drop n).length = bytes.drop n
    rw [← h.length_eq, Ring.contents_mod, hdrop, Ring.length_contents (by omega)]

theorem take_is (h : b.Is size bytes) {n : ℕ} (hn : n ≤ bytes.length) :
    Ring.contents b.pUartBuff b.pOutPos n = bytes.take n := by
  rw [← Ring.take_contents b.pUartBuff b.pOutPos hn, h.contents_eq]

theorem txFifoInsertLoop_eq {n : ℕ} {b : UartBuffer} (hsize : b.uartBuffSize = b.pUartBuff.length)
    (hout : b.pOutPos < b.pUartBuff.length) (hn : n ≤ b.pUartBuff.length) : txFifoInsertLoop n b =
      (Ring.contents b.pUartBuff b.pOutPos n, { b with pOutPos := (b.pOutPos + n) % b.pUartBuff.length }) := by
  induction n generalizing b with
  | zero =>
    rw [txFifoInsertLoop, Ring.contents_zero, Nat.add_zero, Nat.mod_eq_of_lt hout]
  | succ n ih =>
    obtain ⟨c, hc, hcs⟩ := Ring.contents_head hout hn
    have hnext : (if b.pOutPos + 1 = b.uartBuffSize then 0 else b.pOutPos + 1) =
        (b.pOutPos + 1) % b.pUartBuff.length := by
      rw [hsize, Ring.succ_wrap_eq hout]
    have hih := ih (b := { b with pOutPos := (b.pOutPos + 1) % b.pUartBuff.length }) hsize
      (Nat.mod_lt _ (by omega)) (by show n ≤ b.pUartBuff.length; omega)
    rw [txFifoInsertLoop]
    simp only [hnext]
    rw [hih, hcs, List.getD_eq_getElem?_getD, hc, Option.getD_some, Ring.contents_mod]
    simp only [Nat.mod_add_mod, Nat.add_assoc, Nat.add_comm 1 n]

theorem txFifoInsert_is (h : b.Is size bytes) {n : ℕ} (hn : n ≤ bytes.length) :
    (txFifoInsert n b).1 = bytes.take n ∧ (txFifoInsert n b).2.Is size (bytes.drop n) := by
  have hle : n ≤ b.pUartBuff.length := by
    rw [h.length_eq, ← h.space_eq]
    omega
  have heq := txFifoInsertLoop_eq (h.size_eq.trans h.length_eq.symm) (by rw [h.length_eq]; exact h.out_lt) hle
  have hpos : (b.pOutPos + n) % b.pUartBuff.length % b.uartBuffSize = (b.pOutPos + n) % size := by
    rw [h.length_eq, h.size_eq, Nat.mod_mod]
  unfold txFifoInsert
  simp only [heq, take_is h hn, hpos]
  exact ⟨trivial, advance_is h hn⟩

/-- With a byte of room in the buffer, a read takes the oldest bytes, as many as there are. -/
theorem rxBuffDeq_is (h : b.Is size bytes) (hs : 0 < b.space) (data_len : ℕ) :
    (rxBuffDeq b data_len).1 = bytes.take data_len ∧ (rxBuffDeq b data_len).2.Is size (bytes.drop data_len) := by
  -- the length that it reads
  obtain ⟨len, hlen, hle, htake, hdrop⟩ : ∃ len,
      (if b.uartBuffSize - b.space < data_len then b.uartBuffSize - b.space else data_len) = len ∧
      len ≤ bytes.length ∧ bytes.take data_len = bytes.take len ∧ bytes.drop data_len = bytes.drop len := by
    rw [h.used_eq]
    refine ⟨_, rfl, ?_⟩
    split
    · rename_i hlt
      rw [List.take_of_length_le (Nat.le_of_lt hlt), List.take_length, List.drop_of_length_le (Nat.le_of_lt hlt),
        List.drop_length]
      exact ⟨Nat.le_refl _, rfl, rfl⟩
    · rename_i hlt
      exact ⟨Nat.le_of_not_lt hlt, rfl, rfl⟩
  have hout := h.out_lt
  have hspace := h.space_eq
  rw [htake, hdrop, ← take_is h hle]
  have hadv := advance_is h hle
  unfold rxBuffDeq
  simp only [hlen]
  by_cases hin : b.pOutPos ≤ b.pInPos
  · have hend : b.pOutPos + bytes.length < size := by
      by_contra hge
      have hmod := h.in_eq
      rw [Nat.mod_eq_sub_mod (by omega), Nat.mod_eq_of_lt (by omega)] at hmod
      omega
    rw [if_pos hin, Ring.contents_eq_take (by rw [h.length_eq]; omega)]
    rw [Nat.mod_eq_of_lt (by omega)] at hadv
    exact ⟨rfl, hadv⟩
  · rw [if_neg hin]
    by_cases htail : b.uartBuffSize - b.pOutPos < len
    · have htail' : size - b.pOutPos < len := by rwa [h.size_eq] at htail
      have h0 : (b.pOutPos + (b.uartBuffSize - b.pOutPos)) % b.uartBuffSize = 0 := by
        rw [h.size_eq, Nat.add_sub_cancel' (Nat.le_of_lt hout), Nat.mod_self]
      have hpieces := Ring.contents_eq_append b.pUartBuff b.pOutPos len (by rw [h.length_eq]; exact hout)
        (by rw [h.length_eq]; omega) (by rw [h.length_eq]; omega)
      rw [h.length_eq, ← h.size_eq] at hpieces
      have hpos : (0 + (len - (b.uartBuffSize - b.pOutPos))) % b.uartBuffSize = (b.pOutPos + len) % size := by
        rw [h.size_eq, Nat.zero_add, ← Nat.add_mod_left size]
        congr 1
        omega
      have hspace' : b.space + (b.uartBuffSize - b.pOutPos) + (len - (b.uartBuffSize - b.pOutPos)) = b.space + len := by
        omega
      rw [if_pos htail]
      simp only [h0, hpos, hspace']
      exact ⟨hpieces.symm, hadv⟩
    · have hend : b.pOutPos + len ≤ b.pUartBuff.length := by
        rw [h.size_eq] at htail
        rw [h.length_eq]
        omega
      rw [← h.size_eq] at hadv
      rw [if_neg htail, Ring.contents_eq_take hend, ← h.size_eq]
      exact ⟨rfl, hadv⟩

/-- A byte is stored behind the others. -/
theorem set_is (h : b.Is size bytes) (hs : 0 < b.space) (c : UInt8) :
    UartBuffer.Is { b with
      pUartBuff := b.pUartBuff.set b.pInPos c
      pInPos := if b.pInPos + 1 = b.uartBuffSize then 0 else b.pInPos + 1
      space := b.space - 1 } size (bytes ++ [c]) := by
  have hspace := h.space_eq
  have hin : b.pInPos < size := by
    rw [h.in_eq]
    exact Nat.mod_lt _ h.size_pos
  refine ⟨h.size_pos, h.size_eq, List.length_set.trans h.length_eq, h.out_lt, ?_, ?_, ?_⟩
  · have hnext : (if b.pInPos + 1 = b.uartBuffSize then 0 else b.pInPos + 1) = (b.pInPos + 1) % size := by
      rw [h.size_eq, Ring.succ_wrap_eq hin]
    show (if b.pInPos + 1 = b.uartBuffSize then 0 else b.pInPos + 1) = _
    rw [hnext, h.in_eq, Nat.mod_add_mod, List.length_append, List.length_singleton, Nat.add_assoc]
  · show b.space - 1 + (bytes ++ [c]).length = size
    rw [List.length_append, List.length_singleton]
    omega
  · have hset := Ring.contents_set b.pUartBuff b.pOutPos (n := bytes.length) (by rw [h.length_eq]; omega) c
    rw [h.length_eq, ← h.in_eq, h.contents_eq] at hset
    rw [List.length_append, List.length_singleton]
    exact hset

/-- The loop does not read the space. -/
theorem uartRxBuffEnqLoop_space (b : UartBuffer) (data : List UInt8) (space : ℕ) :
    uartRxBuffEnqLoop { b with space := space } data = { uartRxBuffEnqLoop b data with space := space } := by
  induction data generalizing b with
  | nil => rfl
  | cons c data ih => exact ih { b with
      pUartBuff := b.pUartBuff.set b.pInPos c
      pInPos := if b.pInPos + 1 = b.uartBuffSize then 0 else b.pInPos + 1 }

theorem uartRxBuffEnqLoop_is (h : b.Is size bytes) {data : List UInt8} (hd : data.length ≤ b.space) :
    UartBuffer.Is { uartRxBuffEnqLoop b data with space := b.space - data.length } size (bytes ++ data) := by
  induction data generalizing b bytes with
  | nil =>
    rw [List.append_nil]
    exact h
  | cons c data ih =>
    rw [List.length_cons] at hd
    have hih := ih (set_is h (by omega) c) (by show data.length ≤ b.space - 1; omega)
    rw [List.append_assoc, List.singleton_append] at hih
    have hspace : b.space - 1 - data.length = b.space - (c :: data).length := by
      rw [List.length_cons]
      omega
    rw [← hspace]
    have hloop := uartRxBuffEnqLoop_space { b with
      pUartBuff := b.pUartBuff.set b.pInPos c
      pInPos := if b.pInPos + 1 = b.uartBuffSize then 0 else b.pInPos + 1 } data (b.space - 1)
    rw [hloop] at hih
    exact hih

/-! ### The driver -/

inductive Stmt
  /-- `READ_PERI_REG(UART_INT_ENA(UART0))` -/
  | readEna
  /-- What was read is written back without, or with, the bits of an interrupt. -/
  | clearTxEna
  | setTxEna
  | setRxEna
  /-- The test of `Space` in `tx_buff_enq`, and `Uart_Buf_Cpy`. -/
  | bufCpy (pdata : List UInt8)
  /-- `Uart_rx_buff_enq` up to its last test. -/
  | rxBuffEnq
  | rxBuffDeq (data_len : ℕ)

structure State where
  /-- The interrupts enabled in `UART_INT_ENA`: `TXFIFO_EMPTY`, and `RXFIFO_FULL` with `RXFIFO_TOUT`. -/
  txEna : Bool
  rxEna : Bool
  txFifo : List UInt8
  rxFifo : List UInt8
  pTxBuffer : UartBuffer
  pRxBuffer : UartBuffer
  /-- The events in `uart_recvTaskQueue`. -/
  queue : ℕ
  /-- What is left of a task. -/
  cont : List Stmt
  /-- What a task has read of `UART_INT_ENA`. -/
  reg : Bool × Bool
  /-- What `tx_buff_enq` took, what went out on the line, what the RX FIFO took, and what
  `rx_buff_deq` returned. -/
  accepted : List UInt8
  sent : List UInt8
  received : List UInt8
  delivered : List UInt8

def txBuffEnq (pdata : List UInt8) : List Stmt := [.readEna, .clearTxEna, .bufCpy pdata, .readEna, .setTxEna]

def uartRxIntrEnable : List Stmt := [.readEna, .setRxEna]

/-- The end of `Uart_rx_buff_enq` and `rx_buff_deq`. -/
def enableIf (b : UartBuffer) : List Stmt := if UART_FIFO_LEN ≤ b.space then uartRxIntrEnable else []

/-- A statement of a task, with `rest` behind it. -/
def exec (s : State) (rest : List Stmt) : Stmt → State
  | .readEna => { s with reg := (s.txEna, s.rxEna), cont := rest }
  | .clearTxEna => { s with txEna := false, rxEna := s.reg.2, cont := rest }
  | .setTxEna => { s with txEna := true, rxEna := s.reg.2, cont := rest }
  | .setRxEna => { s with txEna := s.reg.1, rxEna := true, cont := rest }
  | .bufCpy pdata =>
    if pdata.length ≤ s.pTxBuffer.space then
      { s with pTxBuffer := uartBufCpy s.pTxBuffer pdata, accepted := s.accepted ++ pdata, cont := rest }
    else { s with cont := rest }
  | .rxBuffEnq =>
    -- `os_printf("buf full!!!\n\r")`, not on UART0
    if s.pRxBuffer.space ≤ s.rxFifo.length then { s with cont := rest }
    else
      let b := { uartRxBuffEnqLoop s.pRxBuffer s.rxFifo with space := s.pRxBuffer.space - s.rxFifo.length }
      { s with pRxBuffer := b, rxFifo := [], cont := enableIf b ++ rest }
  | .rxBuffDeq data_len =>
    let r := rxBuffDeq s.pRxBuffer data_len
    { s with pRxBuffer := r.2, delivered := s.delivered ++ r.1, cont := enableIf r.2 ++ rest }

/-- The branch of the empty TX FIFO in `uart0_rx_intr_handler`, with `tx_start_uart_buffer`. -/
def txEmptyHandler (s : State) : State :=
  let data_len := s.pTxBuffer.uartBuffSize - s.pTxBuffer.space
  let fifo_remain := UART_FIFO_LEN - s.txFifo.length
  if fifo_remain < data_len then
    let r := txFifoInsert fifo_remain s.pTxBuffer
    { s with txFifo := s.txFifo ++ r.1, pTxBuffer := r.2, txEna := true }
  else
    let r := txFifoInsert data_len s.pTxBuffer
    { s with txFifo := s.txFifo ++ r.1, pTxBuffer := r.2, txEna := false }

/-- The branches of the RX FIFO. -/
def rxHandler (s : State) : State :=
  { s with rxEna := false, queue := if s.queue < uart_recvTaskQueueLen then s.queue + 1 else s.queue }

inductive Event
  /-- A task calls `tx_buff_enq` or `rx_buff_deq`, or `uart_recvTask` runs. -/
  | write (pdata : List UInt8)
  | read (data_len : ℕ)
  | recvTask
  /-- The next statement of the task. -/
  | exec
  /-- The interrupts. -/
  | txEmpty
  | rxFull
  /-- A byte leaves on the line, or comes. -/
  | shift
  | arrive (c : UInt8)

def step (s : State) : Event → Option State
  | .write pdata => if s.cont.isEmpty then some { s with cont := txBuffEnq pdata } else none
  | .read data_len => if s.cont.isEmpty then some { s with cont := [.rxBuffDeq data_len] } else none
  | .recvTask =>
    if s.cont.isEmpty && 0 < s.queue then some { s with queue := s.queue - 1, cont := [.rxBuffEnq] } else none
  | .exec =>
    match s.cont with
    | st :: rest => some (exec s rest st)
    | [] => none
  | .txEmpty => if s.txEna then some (txEmptyHandler s) else none
  | .rxFull => if s.rxEna && !s.rxFifo.isEmpty then some (rxHandler s) else none
  | .shift =>
    match s.txFifo with
    | c :: rest => some { s with txFifo := rest, sent := s.sent ++ [c] }
    | [] => none
  | .arrive c =>
    if s.rxFifo.length < UART_FIFO_LEN then
      some { s with rxFifo := s.rxFifo ++ [c], received := s.received ++ [c] }
    else some s

/-- The UART after `uart_init`. -/
def machine : Machine State Event where
  init :=
    { txEna := false
      rxEna := true
      txFifo := []
      rxFifo := []
      pTxBuffer := uartBufInit (List.replicate UART_TX_BUFFER_SIZE 0)
      pRxBuffer := uartBufInit (List.replicate UART_RX_BUFFER_SIZE 0)
      queue := 0
      cont := []
      reg := (false, false)
      accepted := []
      sent := []
      received := []
      delivered := [] }
  step := step

/-! ### Where a task can be -/

def TxAwake (s : State) : Prop := s.txEna = true ∨ s.pTxBuffer.contents = []

def RxReady (s : State) : Prop := 0 < s.queue ∨ UART_FIFO_LEN ≤ s.pRxBuffer.contents.length

def RxAwake (s : State) : Prop := s.rxEna = true ∨ RxReady s

/-- Between the read and the write of `UART_INT_ENA` the interrupts may have been taken. -/
inductive Place (s : State) : List Stmt → Prop
  | idle (ht : TxAwake s) (hr : RxAwake s) : Place s []
  | write1 {pdata : List UInt8} (ht : TxAwake s) (hr : RxAwake s) : Place s (txBuffEnq pdata)
  | write2 {pdata : List UInt8} (hr : RxAwake s) (hreg : s.reg.2 = true ∨ RxReady s) :
    Place s [.clearTxEna, .bufCpy pdata, .readEna, .setTxEna]
  | write3 {pdata : List UInt8} (ht : s.txEna = false) (hr : RxAwake s) : Place s [.bufCpy pdata, .readEna, .setTxEna]
  | write4 (ht : s.txEna = false) (hr : RxAwake s) : Place s [.readEna, .setTxEna]
  | write5 (ht : s.txEna = false) (hr : RxAwake s) (hreg : s.reg.2 = true ∨ RxReady s) : Place s [.setTxEna]
  | recv (ht : TxAwake s) : Place s [.rxBuffEnq]
  | read {data_len : ℕ} (ht : TxAwake s) (hr : RxAwake s) : Place s [.rxBuffDeq data_len]
  | enable1 (ht : TxAwake s) : Place s uartRxIntrEnable
  | enable2 (ht : TxAwake s) (hreg : s.reg.1 = true ∨ s.pTxBuffer.contents = []) : Place s [.setRxEna]

/-- An interrupt or a byte on the line leaves a task where it is. -/
theorem Place.imp {s s' : State} {cont : List Stmt} (h : Place s cont) (ht : TxAwake s → TxAwake s')
    (hena : s.txEna = false → s'.txEna = false) (hr : RxAwake s → RxAwake s') (hready : RxReady s → RxReady s')
    (hreg : s'.reg = s.reg) (hempty : s.pTxBuffer.contents = [] → s'.pTxBuffer.contents = []) : Place s' cont := by
  have hrx : s.reg.2 = true ∨ RxReady s → s'.reg.2 = true ∨ RxReady s' := by
    rw [hreg]
    exact Or.imp_right hready
  have htx : s.reg.1 = true ∨ s.pTxBuffer.contents = [] → s'.reg.1 = true ∨ s'.pTxBuffer.contents = [] := by
    rw [hreg]
    exact Or.imp_right hempty
  cases h with
  | idle h1 h2 => exact .idle (ht h1) (hr h2)
  | write1 h1 h2 => exact .write1 (ht h1) (hr h2)
  | write2 h1 h2 => exact .write2 (hr h1) (hrx h2)
  | write3 h1 h2 => exact .write3 (hena h1) (hr h2)
  | write4 h1 h2 => exact .write4 (hena h1) (hr h2)
  | write5 h1 h2 h3 => exact .write5 (hena h1) (hr h2) (hrx h3)
  | recv h1 => exact .recv (ht h1)
  | read h1 h2 => exact .read (ht h1) (hr h2)
  | enable1 h1 => exact .enable1 (ht h1)
  | enable2 h1 h2 => exact .enable2 (ht h1) (htx h2)

/-- What a run keeps. -/
structure Inv (s : State) : Prop where
  place : Place s s.cont
  tx : ∃ bytes, s.pTxBuffer.Is UART_TX_BUFFER_SIZE bytes ∧ s.sent ++ s.txFifo ++ bytes = s.accepted
  rx : ∃ bytes, s.pRxBuffer.Is UART_RX_BUFFER_SIZE bytes ∧ s.delivered ++ bytes ++ s.rxFifo = s.received
  rxSpace : 0 < s.pRxBuffer.space
  txFifo : s.txFifo.length ≤ UART_FIFO_LEN
  rxFifo : s.rxFifo.length ≤ UART_FIFO_LEN

theorem uartBufInit_replicate (n : ℕ) : (uartBufInit (List.replicate (n + 1) 0)).Is (n + 1) [] := by
  have hlen : (List.replicate (n + 1) (0 : UInt8)).length = n + 1 := List.length_replicate
  have his := uartBufInit_is (List.replicate (n + 1) 0) (by rw [hlen]; exact Nat.succ_pos n)
  rwa [hlen] at his

theorem inv_init : Inv machine.init where
  place := .idle (Or.inr (uartBufInit_replicate 255).contents) (Or.inl rfl)
  tx := ⟨[], uartBufInit_replicate 255, rfl⟩
  rx := ⟨[], uartBufInit_replicate 255, rfl⟩
  rxSpace := by
    show 0 < (List.replicate UART_RX_BUFFER_SIZE (0 : UInt8)).length
    rw [List.length_replicate]
    exact Nat.succ_pos 255
  txFifo := Nat.zero_le _
  rxFifo := Nat.zero_le _

/-- The space that a buffer of bytes has left. -/
theorem UartBuffer.Is.space_add (h : b.Is size bytes) : b.space + b.contents.length = size := by
  rw [h.contents]
  exact h.space_eq

/-! ### What the interrupts keep -/

theorem txEmptyHandler_inv {s : State} (h : Inv s) (hena : s.txEna = true) : Inv (txEmptyHandler s) := by
  obtain ⟨bytes, his, hb⟩ := h.tx
  have hlen := his.used_eq
  have hfifo := h.txFifo
  have hfull : ¬ s.txEna = false := by
    rw [hena]
    exact Bool.noConfusion
  unfold txEmptyHandler
  simp only [hlen]
  split
  · rename_i hlt
    obtain ⟨hout, his'⟩ := txFifoInsert_is his (Nat.le_of_lt hlt)
    refine ⟨h.place.imp (fun _ => Or.inl rfl) (fun hf => absurd hf hfull) id id rfl fun he => ?_,
      ⟨_, his', ?_⟩, h.rx, h.rxSpace, ?_, h.rxFifo⟩
    · -- the buffer is not empty
      rw [his.contents] at he
      rw [he] at hlt
      exact absurd hlt (Nat.not_lt_zero _)
    · show s.sent ++ (s.txFifo ++ _) ++ _ = s.accepted
      rw [hout, ← hb, List.append_assoc, List.append_assoc, List.take_append_drop, List.append_assoc]
    · show (s.txFifo ++ _).length ≤ _
      rw [hout, List.length_append, List.length_take_of_le (Nat.le_of_lt hlt)]
      omega
  · rename_i hge
    obtain ⟨hout, his'⟩ := txFifoInsert_is his (Nat.le_refl bytes.length)
    have hnil : bytes.drop bytes.length = [] := List.drop_length
    rw [hnil] at his'
    refine ⟨h.place.imp (fun _ => Or.inr his'.contents) (fun _ => rfl) id id rfl fun _ => his'.contents,
      ⟨[], his', ?_⟩, h.rx, h.rxSpace, ?_, h.rxFifo⟩
    · show s.sent ++ (s.txFifo ++ _) ++ [] = s.accepted
      rw [hout, List.take_length, ← hb, List.append_nil, List.append_assoc]
    · show (s.txFifo ++ _).length ≤ _
      rw [hout, List.take_length, List.length_append]
      omega

theorem rxHandler_inv {s : State} (h : Inv s) : Inv (rxHandler s) := by
  have hready : RxReady (rxHandler s) := by
    apply Or.inl
    show 0 < if s.queue < uart_recvTaskQueueLen then s.queue + 1 else s.queue
    split
    · exact Nat.succ_pos _
    · rename_i hfull
      exact Nat.lt_of_lt_of_le (Nat.succ_pos 9) (Nat.le_of_not_lt hfull)
  exact ⟨h.place.imp id id (fun _ => Or.inr hready) (fun _ => hready) rfl id, h.tx, h.rx, h.rxSpace, h.txFifo, h.rxFifo⟩

/-! ### What the statements of the tasks keep -/

theorem uartBufCpy_inv {s : State} (h : Inv s) {pdata : List UInt8} (hena : s.txEna = false) (hr : RxAwake s) :
    Inv (exec s [.readEna, .setTxEna] (.bufCpy pdata)) := by
  obtain ⟨bytes, his, hb⟩ := h.tx
  unfold exec
  simp only
  split
  · rename_i hle
    refine ⟨.write4 hena hr, ⟨bytes ++ pdata, uartBufCpy_is his hle, ?_⟩, h.rx, h.rxSpace, h.txFifo, h.rxFifo⟩
    show s.sent ++ s.txFifo ++ (bytes ++ pdata) = s.accepted ++ pdata
    rw [← List.append_assoc, hb]
  · exact ⟨.write4 hena hr, h.tx, h.rx, h.rxSpace, h.txFifo, h.rxFifo⟩

/-- Where a task is after the last test of `Uart_rx_buff_enq` and of `rx_buff_deq`: it enables the
interrupt, or there are bytes enough in the buffer. -/
theorem place_enableIf {s : State} {bytes : List UInt8} (ht : TxAwake s)
    (his : s.pRxBuffer.Is UART_RX_BUFFER_SIZE bytes) : Place s (enableIf s.pRxBuffer ++ []) := by
  unfold enableIf
  split
  · exact .enable1 ht
  · rename_i hlt
    have hadd : s.pRxBuffer.space + s.pRxBuffer.contents.length = UART_FIFO_LEN + UART_FIFO_LEN := his.space_add
    have hready : UART_FIFO_LEN ≤ s.pRxBuffer.contents.length := by omega
    exact .idle ht (Or.inr (Or.inr hready))

theorem rxBuffEnq_inv {s : State} (h : Inv s) (ht : TxAwake s) : Inv (exec s [] .rxBuffEnq) := by
  obtain ⟨bytes, his, hb⟩ := h.rx
  unfold exec
  simp only
  split
  · rename_i hfull
    have hadd : s.pRxBuffer.space + s.pRxBuffer.contents.length = UART_FIFO_LEN + UART_FIFO_LEN := his.space_add
    have hfifo := h.rxFifo
    have hready : UART_FIFO_LEN ≤ s.pRxBuffer.contents.length := by omega
    exact ⟨.idle ht (Or.inr (Or.inr hready)), h.tx, h.rx, h.rxSpace, h.txFifo, h.rxFifo⟩
  · rename_i hroom
    have his' := uartRxBuffEnqLoop_is his (Nat.le_of_not_le hroom)
    refine ⟨place_enableIf ht his', h.tx, ⟨_, his', ?_⟩, ?_, h.txFifo, Nat.zero_le _⟩
    · show s.delivered ++ (bytes ++ s.rxFifo) ++ [] = s.received
      rw [List.append_nil, ← List.append_assoc, hb]
    · show 0 < s.pRxBuffer.space - s.rxFifo.length
      omega

theorem rxBuffDeq_inv {s : State} (h : Inv s) (ht : TxAwake s) (data_len : ℕ) :
    Inv (exec s [] (.rxBuffDeq data_len)) := by
  obtain ⟨bytes, his, hb⟩ := h.rx
  obtain ⟨hout, his'⟩ := rxBuffDeq_is his h.rxSpace data_len
  unfold exec
  simp only
  refine ⟨place_enableIf ht his', h.tx, ⟨_, his', ?_⟩, ?_, h.txFifo, h.rxFifo⟩
  · show s.delivered ++ (rxBuffDeq s.pRxBuffer data_len).1 ++ _ ++ s.rxFifo = s.received
    rw [hout, List.append_assoc s.delivered, List.take_append_drop, hb]
  · -- the bytes that are left are no more than there were
    have hspace : (rxBuffDeq s.pRxBuffer data_len).2.space + (bytes.drop data_len).length = UART_RX_BUFFER_SIZE :=
      his'.space_eq
    have hspace0 := his.space_eq
    have hpos := h.rxSpace
    rw [List.length_drop] at hspace
    show 0 < (rxBuffDeq s.pRxBuffer data_len).2.space
    omega

/-- The next statement of a task, wherever it is. -/
theorem exec_inv {s : State} (h : Inv s) {st : Stmt} {rest : List Stmt} (hc : s.cont = st :: rest) :
    Inv (exec s rest st) := by
  have hplace := h.place
  rw [hc] at hplace
  cases hplace with
  | write1 ht hr => exact ⟨.write2 hr (hr.imp_left fun hrx => hrx), h.tx, h.rx, h.rxSpace, h.txFifo, h.rxFifo⟩
  | write2 hr hreg => exact ⟨.write3 rfl hreg, h.tx, h.rx, h.rxSpace, h.txFifo, h.rxFifo⟩
  | write3 ht hr => exact uartBufCpy_inv h ht hr
  | write4 ht hr => exact ⟨.write5 ht hr hr, h.tx, h.rx, h.rxSpace, h.txFifo, h.rxFifo⟩
  | write5 ht hr hreg => exact ⟨.idle (Or.inl rfl) hreg, h.tx, h.rx, h.rxSpace, h.txFifo, h.rxFifo⟩
  | recv ht => exact rxBuffEnq_inv h ht
  | read ht hr => exact rxBuffDeq_inv h ht _
  | enable1 ht => exact ⟨.enable2 ht ht, h.tx, h.rx, h.rxSpace, h.txFifo, h.rxFifo⟩
  | enable2 ht hreg => exact ⟨.idle hreg (Or.inl rfl), h.tx, h.rx, h.rxSpace, h.txFifo, h.rxFifo⟩

/-! ### What a step keeps -/

theorem Inv.idle {s : State} (h : Inv s) (hc : s.cont = []) : TxAwake s ∧ RxAwake s := by
  have hplace := h.place
  rw [hc] at hplace
  cases hplace with
  | idle ht hr => exact ⟨ht, hr⟩

theorem inv_step {s s' : State} {e : Event} (h : Inv s) (hs : step s e = some s') : Inv s' := by
  cases e with
  | write pdata =>
    obtain ⟨hc, hs'⟩ := Option.ite_none_right_eq_some.mp hs
    obtain rfl := Option.some.inj hs'
    obtain ⟨ht, hr⟩ := h.idle (List.isEmpty_iff.mp hc)
    exact ⟨.write1 ht hr, h.tx, h.rx, h.rxSpace, h.txFifo, h.rxFifo⟩
  | read data_len =>
    obtain ⟨hc, hs'⟩ := Option.ite_none_right_eq_some.mp hs
    obtain rfl := Option.some.inj hs'
    obtain ⟨ht, hr⟩ := h.idle (List.isEmpty_iff.mp hc)
    exact ⟨.read ht hr, h.tx, h.rx, h.rxSpace, h.txFifo, h.rxFifo⟩
  | recvTask =>
    obtain ⟨hc, hs'⟩ := Option.ite_none_right_eq_some.mp hs
    obtain rfl := Option.some.inj hs'
    obtain ⟨ht, hr⟩ := h.idle (List.isEmpty_iff.mp (Bool.and_eq_true_iff.mp hc).1)
    exact ⟨.recv ht, h.tx, h.rx, h.rxSpace, h.txFifo, h.rxFifo⟩
  | exec =>
    unfold step at hs
    simp only at hs
    split at hs
    · rename_i st rest hc
      obtain rfl := Option.some.inj hs
      exact exec_inv h hc
    · exact absurd hs.symm (Option.some_ne_none _)
  | txEmpty =>
    obtain ⟨hena, hs'⟩ := Option.ite_none_right_eq_some.mp hs
    obtain rfl := Option.some.inj hs'
    exact txEmptyHandler_inv h hena
  | rxFull =>
    obtain ⟨_, hs'⟩ := Option.ite_none_right_eq_some.mp hs
    obtain rfl := Option.some.inj hs'
    exact rxHandler_inv h
  | shift =>
    unfold step at hs
    simp only at hs
    split at hs
    · rename_i c rest hfifo
      obtain rfl := Option.some.inj hs
      obtain ⟨bytes, his, hb⟩ := h.tx
      have hlen := h.txFifo
      rw [hfifo] at hb hlen
      refine ⟨h.place.imp id id id id rfl id, ⟨bytes, his, ?_⟩, h.rx, h.rxSpace, Nat.le_of_succ_le hlen, h.rxFifo⟩
      show s.sent ++ [c] ++ rest ++ bytes = s.accepted
      rw [← hb, List.append_assoc s.sent, List.singleton_append]
    · exact absurd hs.symm (Option.some_ne_none _)
  | arrive c =>
    unfold step at hs
    simp only at hs
    split at hs
    · rename_i hlt
      obtain rfl := Option.some.inj hs
      obtain ⟨bytes, his, hb⟩ := h.rx
      refine ⟨h.place.imp id id id id rfl id, h.tx, ⟨bytes, his, ?_⟩, h.rxSpace, h.txFifo, ?_⟩
      · show s.delivered ++ bytes ++ (s.rxFifo ++ [c]) = s.received ++ [c]
        rw [← List.append_assoc, hb]
      · show (s.rxFifo ++ [c]).length ≤ _
        rw [List.length_append, List.length_singleton]
        exact hlt
    · obtain rfl := Option.some.inj hs
      exact h

theorem inv_run (es : List Event) : machine.Throughout Inv machine.init es :=
  machine.throughout_of_inv (fun _ _ _ => inv_step) inv_init es

/-! ### What goes out, and what comes in -/

structure TxSound (s : State) : Prop where
  /-- What was accepted is sent, in the FIFO, or in the buffer, in its order. -/
  order : s.sent ++ s.txFifo ++ s.pTxBuffer.contents = s.accepted
  /-- The FIFO does not overflow. -/
  fifo : s.txFifo.length ≤ UART_FIFO_LEN
  /-- The interrupt is disabled where a task is about to write to the buffer. -/
  alone : ∀ pdata rest, s.cont = .bufCpy pdata :: rest → s.txEna = false
  /-- Between the tasks, what is in the buffer has the interrupt enabled. -/
  awake : s.cont = [] → s.pTxBuffer.contents ≠ [] → s.txEna = true

structure RxSound (s : State) : Prop where
  /-- What the FIFO took is delivered, in the buffer, or in the FIFO, in its order. -/
  order : s.delivered ++ s.pRxBuffer.contents ++ s.rxFifo = s.received
  /-- There is always a byte of room, which tells the full buffer from the empty one. -/
  room : s.pRxBuffer.contents.length < UART_RX_BUFFER_SIZE
  /-- Between the tasks, where there is less than a FIFO in the buffer, the interrupt is enabled or
  `uart_recvTask` is going to run. -/
  awake : s.cont = [] → s.pRxBuffer.contents.length < UART_FIFO_LEN → s.rxEna = true ∨ 0 < s.queue

theorem tx_fifo (es : List Event) : machine.Throughout TxSound machine.init es := by
  refine (inv_run es).mono machine fun s h => ?_
  obtain ⟨bytes, his, hb⟩ := h.tx
  refine ⟨by rw [his.contents]; exact hb, h.txFifo, fun pdata rest hc => ?_, fun hc hne => ?_⟩
  · have hplace := h.place
    rw [hc] at hplace
    cases hplace with
    | write3 ht _ => exact ht
  · exact (h.idle hc).1.resolve_right hne

theorem rx_fifo (es : List Event) : machine.Throughout RxSound machine.init es := by
  refine (inv_run es).mono machine fun s h => ?_
  obtain ⟨bytes, his, hb⟩ := h.rx
  refine ⟨by rw [his.contents]; exact hb, ?_, fun hc hlt => ?_⟩
  · have hadd : s.pRxBuffer.space + s.pRxBuffer.contents.length = UART_RX_BUFFER_SIZE := his.space_add
    have hpos := h.rxSpace
    omega
  · rcases (h.idle hc).2 with hena | hqueue | hfull
    · exact Or.inl hena
    · exact Or.inr hqueue
    · exact absurd hlt (Nat.not_lt_of_le hfull)

end Uart
end Netacademia
