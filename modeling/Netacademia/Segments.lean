/-
# One segment, one command

`daemonConRecvCbk` hands each TCP segment to `daemonHandleAnswer`, which copies
it to the start of `buf` and looks for a keyword in the string there. Nothing
is kept from one segment to the next, and a segment is at most one command:
`DHT_GET` if it has one, else `OK`.

* `segments_kept`: however a stream of commands is cut, it has the effect of one
  command of each segment; a command that is cut itself is lost.
* `ownBytes_iff`: `buf` is not cleared and the copy is not terminated. A segment
  is judged by its own bytes exactly when it fits and a `DHT_GET`, or a NUL, ends
  the search inside of it.
-/
import Netacademia.DaemonHandle
import Netacademia.Daemons

namespace Netacademia
namespace Segments

open Lib DaemonHandle
open Daemons (Reply DHT_GET OK)

/-! ### Segments of commands -/

/-- `buf`, cleared. -/
def zeros : List UInt8 := List.replicate 64 0

/-- `daemonSts`, and the number of `dhtStart` calls, after a segment; the rest of
`buf` is zero. -/
def received (st : UInt8 × ℕ) (pdata : List UInt8) : UInt8 × ℕ :=
  let a := answer pdata zeros
  (a.sts st.1, if a = .dhtGet then st.2 + 1 else st.2)

/-- The same after the segments of a stream. -/
def receive (st : UInt8 × ℕ) (segs : List (List UInt8)) : UInt8 × ℕ := segs.foldl received st

/-- The bytes of a stream of commands. -/
def stream (cmds : List Reply) : List UInt8 := cmds.flatMap Reply.bytes

/-- Where the commands of a stream start, the first one at `pos`. -/
def starts : ℕ → List Reply → List (ℕ × Reply)
  | _, [] => []
  | pos, c :: cmds => (pos, c) :: starts (pos + c.bytes.length) cmds

/-- The commands that lie whole between two positions of a stream. -/
def wholeIn (cmds : List Reply) (lo hi : ℕ) : List Reply :=
  ((starts 0 cmds).filter fun p => lo ≤ p.1 && p.1 + p.2.bytes.length ≤ hi).map Prod.snd

/-- The whole commands of each segment, the first one of which starts at `pos`. -/
def wholes (cmds : List Reply) : ℕ → List (List UInt8) → List (List Reply)
  | _, [] => []
  | pos, seg :: segs => wholeIn cmds pos (pos + seg.length) :: wholes cmds (pos + seg.length) segs

/-- The one command that a segment with these whole commands acts as. -/
def pick (seg : List Reply) : Option Reply :=
  if .dhtGet ∈ seg then some .dhtGet else if .ok ∈ seg then some .ok else none

/-- The commands of a stream that are kept when it is cut into segments. -/
def kept (cmds : List Reply) (segs : List (List UInt8)) : List Reply := (wholes cmds 0 segs).filterMap pick

/-- A `DHT_GET` by itself, or a run of `OK`. -/
def Alone (seg : List Reply) : Prop := seg = [.dhtGet] ∨ ∀ c ∈ seg, c = .ok

/-- What a command does. -/
def command (st : UInt8 × ℕ) : Reply → UInt8 × ℕ
  | .dhtGet => (st.1 + 1, st.2 + 1)
  | .ok => (0, st.2)

theorem le_of_mem_starts {cmds : List Reply} {pos i : ℕ} {c : Reply} (h : (i, c) ∈ starts pos cmds) : pos ≤ i := by
  induction cmds generalizing pos with
  | nil => cases h
  | cons d cmds ih =>
    rcases List.mem_cons.mp h with he | h
    · exact (congrArg Prod.fst he).ge
    · exact le_trans (Nat.le_add_right pos d.bytes.length) (ih h)

/-- The first byte of a command occurs in no other place of a command. -/
theorem bytes_head (c d : Reply) : ∀ i < d.bytes.length, (d.bytes.drop i).head? = c.bytes.head? → i = 0 ∧ c = d := by
  cases c <;> cases d <;> decide

theorem bytes_ne_nil (c : Reply) : c.bytes ≠ [] := by cases c <;> decide

/-- The bytes of a command are found in a stream only where such a command starts. -/
theorem bytes_isPrefix_iff (c : Reply) (cmds : List Reply) (pos i : ℕ) :
    c.bytes <+: (stream cmds).drop i ↔ (pos + i, c) ∈ starts pos cmds := by
  induction cmds generalizing pos i with
  | nil => simp [stream, starts, bytes_ne_nil]
  | cons d cmds ih =>
    have hs : stream (d :: cmds) = d.bytes ++ stream cmds := rfl
    rw [hs, starts, List.mem_cons]
    by_cases hi : i < d.bytes.length
    · -- inside of the first command
      have hnot : (pos + i, c) ∉ starts (pos + d.bytes.length) cmds := fun hm => by
        have := le_of_mem_starts hm
        omega
      have hdrop : (d.bytes ++ stream cmds).drop i = d.bytes.drop i ++ stream cmds :=
        List.drop_append_of_le_length hi.le
      rw [or_iff_left hnot, hdrop, Prod.mk.injEq]
      constructor
      · intro hp
        have hne : d.bytes.drop i ≠ [] := by
          rw [Ne, List.drop_eq_nil_iff]
          omega
        have hhead : (d.bytes.drop i).head? = c.bytes.head? := by
          obtain ⟨rest, hr⟩ := hp
          rw [← List.head?_append_of_ne_nil _ hne, ← hr, List.head?_append_of_ne_nil _ (bytes_ne_nil c)]
        obtain ⟨rfl, rfl⟩ := bytes_head c d i hi hhead
        exact ⟨rfl, rfl⟩
      · rintro ⟨h0, rfl⟩
        obtain rfl : i = 0 := by omega
        exact List.prefix_append _ _
    · have hne : (pos + i, c) ≠ (pos, d) := fun he => by
        have := congrArg Prod.fst he
        have := List.length_pos_iff.mpr (bytes_ne_nil d)
        omega
      have hpos : pos + i = pos + d.bytes.length + (i - d.bytes.length) := by omega
      rw [or_iff_right hne, hpos, ← ih, List.drop_append, List.drop_of_length_le (not_lt.mp hi), List.nil_append]

/-- A piece of a stream contains the bytes of a command exactly where the command
lies whole in it. -/
theorem infix_piece_iff (c : Reply) (cmds : List Reply) (lo hi : ℕ) :
    c.bytes <:+: ((stream cmds).take hi).drop lo ↔ c ∈ wholeIn cmds lo hi := by
  rw [infix_drop_take_iff (bytes_ne_nil c)]
  simp only [bytes_isPrefix_iff c cmds 0, Nat.zero_add, wholeIn, List.mem_map, List.mem_filter, Bool.and_eq_true,
    decide_eq_true_eq]
  constructor
  · rintro ⟨i, hlo, hhi, hm⟩
    exact ⟨(i, c), ⟨hm, hlo, hhi⟩, rfl⟩
  · rintro ⟨⟨i, _⟩, ⟨hm, hlo, hhi⟩, rfl⟩
    exact ⟨i, hlo, hhi, hm⟩

theorem zero_notMem_stream (cmds : List Reply) : 0 ∉ stream cmds := by
  rw [stream, List.mem_flatMap]
  rintro ⟨c, -, hc⟩
  cases c <;> exact absurd hc (by decide)

/-- A segment acts as one of its whole commands, or not at all. -/
theorem received_eq_pick (st : UInt8 × ℕ) {seg : List UInt8} {l : List Reply} (h0 : 0 ∉ seg) (hlen : seg.length ≤ 63)
    (hl : ∀ c : Reply, c.bytes <:+: seg ↔ c ∈ l) : received st seg = (pick l).toList.foldl command st := by
  -- the zeros behind the copy end the string
  have hmem : cstr (bufAfter seg zeros) = seg := by
    obtain ⟨n, hn⟩ : ∃ n, 64 - seg.length = n + 1 := ⟨63 - seg.length, by omega⟩
    rw [bufAfter, cstr_append h0, zeros, List.drop_replicate, hn]
    simp [cstr, List.replicate_succ]
  have hget : strstr (bufAfter seg zeros) DHT_GET = true ↔ .dhtGet ∈ l := by
    rw [strstr, hmem, occurs_iff]
    exact hl .dhtGet
  have hok : strstr (bufAfter seg zeros) OK = true ↔ .ok ∈ l := by
    rw [strstr, hmem, occurs_iff]
    exact hl .ok
  rw [received, answer, if_congr hget rfl (if_congr hok rfl rfl), pick]
  by_cases hg : .dhtGet ∈ l
  · simp [hg, command, Answer.sts]
  · by_cases ho : .ok ∈ l
    · simp [hg, ho, command, Answer.sts]
    · simp [hg, ho, Answer.sts]

/-- A command in a segment of its own. -/
theorem received_bytes (st : UInt8 × ℕ) (c : Reply) : received st c.bytes = command st c := by
  have h : received st c.bytes = (pick [c]).toList.foldl command st :=
    received_eq_pick st (by cases c <;> decide) (by cases c <;> decide) fun d => by cases c <;> cases d <;> decide
  rw [h]
  cases c <;> rfl

theorem receive_bytes (st : UInt8 × ℕ) (cmds : List Reply) :
    receive st (cmds.map Reply.bytes) = cmds.foldl command st := by
  rw [receive, List.foldl_map]
  exact congrFun (congrFun (congrArg List.foldl (funext fun st => funext fun c => received_bytes st c)) st) cmds

theorem foldl_pick_cons (st : UInt8 × ℕ) (l : List Reply) (ls : List (List Reply)) :
    ((l :: ls).filterMap pick).foldl command st =
      (ls.filterMap pick).foldl command ((pick l).toList.foldl command st) := by
  rw [List.filterMap_cons]
  cases pick l <;> rfl

/-- The segments of a stream from a position on. -/
theorem receive_from {cmds : List Reply} {segs : List (List UInt8)} (pre : List UInt8)
    (hcut : pre ++ segs.flatten = stream cmds) (hlen : ∀ seg ∈ segs, seg.length ≤ 63) (st : UInt8 × ℕ) :
    receive st segs = ((wholes cmds pre.length segs).filterMap pick).foldl command st := by
  induction segs generalizing pre st with
  | nil => rfl
  | cons seg segs ih =>
    have hpiece : ((stream cmds).take (pre.length + seg.length)).drop pre.length = seg := by
      rw [← hcut, List.flatten_cons, ← List.append_assoc, List.take_left' (List.length_append), List.drop_left]
    have h0 : 0 ∉ seg := fun hm => by
      refine zero_notMem_stream cmds ?_
      rw [← hcut]
      exact List.mem_append_right _ (List.mem_append_left _ hm)
    have hrec := received_eq_pick st h0 (hlen seg List.mem_cons_self) fun c => by
      rw [← infix_piece_iff c cmds pre.length (pre.length + seg.length), hpiece]
    have hrest := ih (pre ++ seg) (by rw [List.append_assoc]; exact hcut)
      (fun s hs => hlen s (List.mem_cons_of_mem _ hs)) (received st seg)
    have hstep : receive st (seg :: segs) = receive (received st seg) segs := rfl
    rw [hstep, hrest, wholes, foldl_pick_cons, ← hrec, List.length_append]

/-- The commands count the calls of `dhtStart`. -/
theorem foldl_command_calls (st : UInt8 × ℕ) (cmds : List Reply) :
    (cmds.foldl command st).2 = st.2 + cmds.count .dhtGet := by
  induction cmds generalizing st with
  | nil => rfl
  | cons c cmds ih =>
    rw [List.foldl_cons, ih]
    cases c with
    | dhtGet =>
      rw [List.count_cons_self]
      simp only [command]
      omega
    | ok => rw [List.count_cons_of_ne (by decide)]; rfl

/-- After an `OK` the counter does not depend on where it started. -/
theorem foldl_command_ok {cmds : List Reply} (h : .ok ∈ cmds) (a b : UInt8) (n : ℕ) :
    (cmds.foldl command (a, n)).1 = (cmds.foldl command (b, n)).1 := by
  induction cmds generalizing a b n with
  | nil => cases h
  | cons c cmds ih =>
    cases c with
    | ok => rfl
    | dhtGet =>
      rcases List.mem_cons.mp h with he | h
      · cases he
      · exact ih h (a + 1) (b + 1) (n + 1)

theorem foldl_command_of_ok {cmds : List Reply} (hne : cmds ≠ []) (h : ∀ c ∈ cmds, c = .ok) (st : UInt8 × ℕ) :
    cmds.foldl command st = (0, st.2) := by
  obtain ⟨n, hn⟩ : ∃ n, cmds = List.replicate (n + 1) .ok := by
    obtain ⟨c, cmds', rfl⟩ := List.exists_cons_of_ne_nil hne
    exact ⟨cmds'.length, List.eq_replicate_of_mem h⟩
  subst hn
  clear hne h
  induction n generalizing st with
  | zero => rfl
  | succ n ih => exact ih (command st .ok)

/-- With `DHT_GET` picked, a segment acts as that command alone only if it is one: it
counts one request, and with an `OK` in it, it would end in the same state from 0
and from 1. -/
theorem eq_of_pick_dhtGet {seg : List Reply} (h : ∀ st, command st .dhtGet = seg.foldl command st) :
    seg = [.dhtGet] := by
  have hcount : seg.count .dhtGet = 1 := by
    have hcalls := congrArg Prod.snd (h (0, 0))
    rw [foldl_command_calls] at hcalls
    simpa [command] using hcalls.symm
  have hok : .ok ∉ seg := by
    intro hm
    have h0 := congrArg Prod.fst (h (0, 0))
    have h1 := congrArg Prod.fst (h (1, 0))
    exact absurd (h0.trans ((foldl_command_ok hm 0 1 0).trans h1.symm)) (by decide)
  have hall : ∀ c ∈ seg, c = .dhtGet := by
    intro c hc
    cases c with
    | dhtGet => rfl
    | ok => exact absurd hc hok
  have hrep := List.eq_replicate_of_mem hall
  rw [hrep, List.count_replicate_self] at hcount
  rw [hrep, hcount]
  rfl

/-- Where there are only `OK`s, one of them is picked. -/
theorem foldl_pick_of_ok {seg : List Reply} (h : ∀ c ∈ seg, c = .ok) (st : UInt8 × ℕ) :
    (pick seg).toList.foldl command st = seg.foldl command st := by
  have hg : .dhtGet ∉ seg := fun hm => by cases h _ hm
  rw [pick, if_neg hg]
  by_cases hne : seg = []
  · rw [hne]
    rfl
  · have ho : .ok ∈ seg := by
      obtain ⟨c, hc⟩ := List.exists_mem_of_ne_nil seg hne
      exact h c hc ▸ hc
    rw [if_pos ho, foldl_command_of_ok hne h]
    rfl

/-- The command that is picked acts as all of them, from any state, exactly when
they are one `DHT_GET` or a run of `OK`. -/
theorem pick_eq_iff (seg : List Reply) :
    (∀ st, (pick seg).toList.foldl command st = seg.foldl command st) ↔ Alone seg := by
  constructor
  · intro h
    by_cases hg : .dhtGet ∈ seg
    · refine Or.inl (eq_of_pick_dhtGet fun st => ?_)
      rw [← h st, pick, if_pos hg]
      rfl
    · right
      intro c hc
      cases c with
      | dhtGet => exact absurd hc hg
      | ok => rfl
  · rintro (rfl | h) st
    · rfl
    · exact foldl_pick_of_ok h st

/-- The commands picked from segments that act as theirs. -/
theorem foldl_pick_of_alone {ls : List (List Reply)} (h : ∀ l ∈ ls, Alone l) (st : UInt8 × ℕ) :
    (ls.filterMap pick).foldl command st = ls.flatten.foldl command st := by
  induction ls generalizing st with
  | nil => rfl
  | cons l ls ih =>
    have hl := (pick_eq_iff l).mpr (h l List.mem_cons_self) st
    have hls := ih (fun m hm => h m (List.mem_cons_of_mem _ hm)) (l.foldl command st)
    rw [foldl_pick_cons, hl, hls, List.flatten_cons, List.foldl_append]

/-- **A segment is at most one command.** However a stream of commands is cut
into segments of at most 63 bytes, the counter and the calls of `dhtStart` are
those of the commands kept, each in a segment of its own: of each segment a
whole `DHT_GET`, else a whole `OK`, else nothing. They are those of all commands
where each is whole in a segment and each `DHT_GET` is alone in its; any other
segment differs from its whole commands in some state. -/
theorem segments_kept (cmds : List Reply) (segs : List (List UInt8)) (hcut : segs.flatten = stream cmds)
    (hlen : ∀ seg ∈ segs, seg.length ≤ 63) :
    (∀ st, receive st segs = receive st ((kept cmds segs).map Reply.bytes)) ∧
      ((wholes cmds 0 segs).flatten = cmds → (∀ l ∈ wholes cmds 0 segs, Alone l) →
        ∀ st, receive st segs = receive st (cmds.map Reply.bytes)) ∧
      ∀ l ∈ wholes cmds 0 segs,
        (∀ st, receive st ((pick l).toList.map Reply.bytes) = receive st (l.map Reply.bytes)) ↔ Alone l := by
  have hkept : ∀ st, receive st segs = (kept cmds segs).foldl command st := receive_from [] hcut hlen
  refine ⟨fun st => ?_, fun hall halone st => ?_, fun l _ => ?_⟩
  · rw [receive_bytes, hkept]
  · rw [receive_bytes, hkept, kept, foldl_pick_of_alone halone, hall]
  · simp only [receive_bytes]
    exact pick_eq_iff l

/-- An acknowledgement in two segments, a request that shares the second one, and
two acknowledgements in one segment: one `OK` is lost and one is not seen. -/
theorem segments_kept_shared :
    receive (1, 0) [ascii ['O'], ascii ['K'] ++ DHT_GET ++ ascii ['O', 'K'], ascii ['O', 'K', 'O', 'K']] =
      receive (1, 0) [DHT_GET, OK] :=
  (segments_kept [.ok, .dhtGet, .ok, .ok, .ok]
    [ascii ['O'], ascii ['K'] ++ DHT_GET ++ ascii ['O', 'K'], ascii ['O', 'K', 'O', 'K']] rfl (by decide)).1 (1, 0)

/-- A `DHT_GET` in two segments starts nothing. -/
theorem split_request_lost : ¬ ∀ (cmds : List Reply) (segs : List (List UInt8)), segs.flatten = stream cmds →
    (∀ seg ∈ segs, seg ≠ [] ∧ seg.length ≤ 63) →
    receive (0, 0) segs = receive (0, 0) (cmds.map Reply.bytes) := by
  intro h
  exact absurd (h [.dhtGet] [ascii ['D', 'H', 'T', '_'], ascii ['G', 'E', 'T']] rfl (by decide)) (by decide)

/-! ### The bytes a segment is judged by -/

/-- How many bytes `strstr(mem, key)` reads: up to the end of the first
occurrence, or up to the terminator. -/
def strstrReads (mem key : List UInt8) : ℕ :=
  match find key (cstr mem) with
  | some i => i + key.length
  | none => (cstr mem).length + 1

/-- How many bytes from `buf` on `daemonHandleAnswer` reads. -/
def answerReads (pdata stack : List UInt8) : ℕ :=
  let mem := bufAfter pdata stack
  if strstr mem DHT_GET then strstrReads mem DHT_GET else max (strstrReads mem DHT_GET) (strstrReads mem OK)

/-- The branch that the received bytes call for. -/
def classify (pdata : List UInt8) : Answer :=
  if DHT_GET <:+: pdata then .dhtGet else if OK <:+: pdata then .ok else .unhandled

/-- A segment is judged by its own bytes: it is copied into `buf`, only its copy is
read, and the branch is its own, whatever the stack held before. -/
structure OwnBytes (pdata : List UInt8) : Prop where
  writes : ∀ i < pdata.length, i < 64
  reads : ∀ stack, answerReads pdata stack ≤ pdata.length
  branch : ∀ stack, answer pdata stack = classify pdata

/-- The search ends inside of the segment: at a `DHT_GET` before any NUL, or at a
NUL that hides no keyword behind it. -/
def Ends (pdata : List UInt8) : Prop :=
  DHT_GET <:+: cstr pdata ∨
    (0 ∈ pdata ∧ ¬ DHT_GET <:+: pdata ∧ (OK <:+: pdata → OK <:+: cstr pdata))

section Search

variable {pdata stack key : List UInt8}

/-- The string of the segment starts the string in memory. -/
theorem cstr_bufAfter (pdata stack : List UInt8) : ∃ rest, cstr (bufAfter pdata stack) = cstr pdata ++ rest := by
  by_cases h : 0 ∈ pdata
  · exact ⟨[], by rw [bufAfter, cstr_append_of_mem _ h, List.append_nil]⟩
  · exact ⟨_, by rw [bufAfter, cstr_append h, cstr_eq_self h]⟩

theorem cstr_bufAfter_of_mem (h : 0 ∈ pdata) : cstr (bufAfter pdata stack) = cstr pdata :=
  cstr_append_of_mem _ h

/-- A keyword in the string of the segment is found there. -/
theorem strstrReads_le (h : key <:+: cstr pdata) : strstrReads (bufAfter pdata stack) key ≤ pdata.length := by
  obtain ⟨i, hi⟩ := Option.isSome_iff_exists.mp ((find_isSome_iff key (cstr pdata)).mpr h)
  obtain ⟨rest, hr⟩ := cstr_bufAfter pdata stack
  rw [strstrReads, hr, find_append hi rest]
  exact le_trans (find_le hi) (cstr_isPrefix pdata).length_le

/-- A NUL in the segment ends the search there. -/
theorem strstrReads_le_of_mem (h : 0 ∈ pdata) : strstrReads (bufAfter pdata stack) key ≤ pdata.length := by
  have hlt := cstr_length_lt h
  rw [strstrReads, cstr_bufAfter_of_mem h]
  cases hf : find key (cstr pdata) with
  | none => exact hlt
  | some i => exact le_trans (find_le hf) hlt.le

theorem strstr_iff_of_mem (h : 0 ∈ pdata) : strstr (bufAfter pdata stack) key = true ↔ key <:+: cstr pdata := by
  rw [strstr, cstr_bufAfter_of_mem h, occurs_iff]

/-- A `DHT_GET` before any NUL takes its branch. -/
theorem strstr_dhtGet (h : DHT_GET <:+: cstr pdata) : strstr (bufAfter pdata stack) DHT_GET = true := by
  obtain ⟨rest, hr⟩ := cstr_bufAfter pdata stack
  rw [strstr, hr, occurs_iff]
  exact h.trans (List.infix_append' [] _ rest)

theorem ownBytes_of_ends (hlen : pdata.length ≤ 64) (h : Ends pdata) : OwnBytes pdata where
  writes i hi := lt_of_lt_of_le hi hlen
  reads stack := by
    rcases h with h | ⟨h0, -, -⟩
    · rw [answerReads, if_pos (strstr_dhtGet h)]
      exact strstrReads_le h
    · simp only [answerReads]
      split
      · exact strstrReads_le_of_mem h0
      · exact max_le (strstrReads_le_of_mem h0) (strstrReads_le_of_mem h0)
  branch stack := by
    rcases h with h | ⟨h0, hd, ho⟩
    · rw [answer, if_pos (strstr_dhtGet h), classify, if_pos (h.trans (cstr_isPrefix pdata).isInfix)]
    · have hd' : ¬ DHT_GET <:+: cstr pdata := fun hi => hd (hi.trans (cstr_isPrefix pdata).isInfix)
      have hiff : OK <:+: cstr pdata ↔ OK <:+: pdata := ⟨fun hi => hi.trans (cstr_isPrefix pdata).isInfix, ho⟩
      rw [answer, if_neg (mt (strstr_iff_of_mem h0).mp hd'), if_congr (strstr_iff_of_mem h0) rfl rfl,
        if_congr hiff rfl rfl, classify, if_neg hd]

/-- Without a NUL and without a `DHT_GET` the search reads on behind the segment. -/
theorem mem_of_reads (h : answerReads pdata [] ≤ pdata.length) (hd : ¬ DHT_GET <:+: cstr pdata) : 0 ∈ pdata := by
  by_contra h0
  have hmem : cstr (bufAfter pdata []) = pdata := by
    rw [bufAfter, List.drop_nil, List.append_nil, cstr_eq_self h0]
  rw [cstr_eq_self h0] at hd
  have hnone : find DHT_GET pdata = none := by
    rw [← Option.not_isSome_iff_eq_none, find_isSome_iff]
    exact hd
  have hreads : strstrReads (bufAfter pdata []) DHT_GET = pdata.length + 1 := by
    rw [strstrReads, hmem, hnone]
  have hs : strstr (bufAfter pdata []) DHT_GET = false := by rw [strstr, hmem, occurs, hnone]; rfl
  rw [answerReads, hs, if_neg Bool.false_ne_true, hreads] at h
  omega

theorem ends_of_ownBytes (h : OwnBytes pdata) : Ends pdata := by
  by_cases hd : DHT_GET <:+: cstr pdata
  · exact Or.inl hd
  · have h0 := mem_of_reads (h.reads []) hd
    have hb := h.branch []
    rw [answer, if_neg (mt (strstr_iff_of_mem h0).mp hd), if_congr (strstr_iff_of_mem h0) rfl rfl] at hb
    have hd' : ¬ DHT_GET <:+: pdata := by
      intro hi
      rw [classify, if_pos hi] at hb
      split at hb <;> cases hb
    refine Or.inr ⟨h0, hd', fun ho => ?_⟩
    rw [classify, if_neg hd', if_pos ho] at hb
    by_contra hn
    rw [if_neg hn] at hb
    cases hb

end Search

/-- **When a segment is judged by its own bytes**: if and only if it has at most
64 of them and the search ends inside of it. -/
theorem ownBytes_iff (pdata : List UInt8) : OwnBytes pdata ↔ pdata.length ≤ 64 ∧ Ends pdata := by
  constructor
  · intro h
    refine ⟨?_, ends_of_ownBytes h⟩
    by_contra hlen
    exact absurd (h.writes 64 (by omega)) (by decide)
  · rintro ⟨hlen, h⟩
    exact ownBytes_of_ends hlen h

/-- The end of an older `DHT_GET` on the stack completes a segment `DHT_`. -/
theorem leftover_completes : ¬ ∀ pdata, OwnBytes pdata := by
  intro h
  have hb := (h (ascii ['D', 'H', 'T', '_'])).branch (DHT_GET ++ [0])
  revert hb
  decide

end Segments
end Netacademia
