/-
# A bounded store that loses room to failed puts

A store of `cap` cells that holds items in the order they were put, each of them
as long as its `size`. An item that does not fit is written up to the end of the
store and then given up: what was written of it stays (`torn`), until the item put
behind it is taken, or until a `get` finds no item and clears it away. So an item
frees its own room and the room lost in front of it, its `cost`.

`force` puts an item and takes the oldest item away for as long as the put fails.
`force_eq` says what it comes to: nothing is lost if the item fits; else all items
go up to the first one whose cost is the size of the new one or more, and if there
is none then all of them are lost, and the new one with them.

`Layout` is a store in bytes: every item is written as its frame, which ends with a
byte that nothing else in the store holds.
-/
import Mathlib.Data.List.TakeWhile

namespace Lib

structure Store (α : Type*) where
  /-- The items, oldest first, each with the room lost in front of it. -/
  blocks : List (α × ℕ)
  /-- The room lost behind the last item. -/
  torn : ℕ
  deriving DecidableEq, Repr

namespace Store

variable {α : Type*} (size : α → ℕ) (cap : ℕ)

def empty : Store α := ⟨[], 0⟩

def items (s : Store α) : List α := s.blocks.map Prod.fst

/-- What taking an item frees. -/
def cost (b : α × ℕ) : ℕ := b.2 + size b.1

def costs : List (α × ℕ) → ℕ
  | [] => 0
  | b :: bs => cost size b + costs bs

def used (s : Store α) : ℕ := costs size s.blocks + s.torn

def put (s : Store α) (a : α) : Bool × Store α :=
  if used size s + size a ≤ cap then (true, ⟨s.blocks ++ [(a, s.torn)], 0⟩)
  else (false, ⟨s.blocks, cap - costs size s.blocks⟩)

def get (s : Store α) : Option α × Store α :=
  match s.blocks with
  | [] => (none, empty)
  | b :: bs => (some b.1, ⟨bs, s.torn⟩)

/-- A put that is tried again after every item taken away, until there is none. -/
def force (a : α) : List (α × ℕ) → ℕ → Bool × Store α
  | [], torn =>
    if used size ⟨[], torn⟩ + size a ≤ cap then (true, ⟨[(a, torn)], 0⟩) else (false, empty)
  | b :: bs, torn =>
    if used size ⟨b :: bs, torn⟩ + size a ≤ cap then (true, ⟨(b :: bs) ++ [(a, torn)], 0⟩)
    else force a bs (cap - costs size (b :: bs))

/-! ### Room -/

@[simp] theorem cost_mk (a : α) (lost : ℕ) : cost size (a, lost) = lost + size a := rfl

@[simp] theorem costs_nil : costs size ([] : List (α × ℕ)) = 0 := rfl

@[simp] theorem costs_cons (b : α × ℕ) (bs : List (α × ℕ)) :
    costs size (b :: bs) = cost size b + costs size bs := rfl

@[simp] theorem used_mk (bs : List (α × ℕ)) (torn : ℕ) : used size ⟨bs, torn⟩ = costs size bs + torn := rfl

variable {size cap}

/-! ### Order -/

theorem items_put (s : Store α) (a : α) :
    items (put size cap s a).2 = items s ++ if (put size cap s a).1 then [a] else [] := by
  unfold put items
  split <;> simp

theorem get_eq_head (s : Store α) : (get s).1 = (items s).head? := by
  unfold get items
  split
  · next hb => rw [hb]; rfl
  · next b bs hb => rw [hb]; rfl

theorem items_get (s : Store α) : items (get s).2 = (items s).tail := by
  unfold get items
  split
  · next hb => rw [hb]; rfl
  · next b bs hb => rw [hb]; rfl

/-! ### Putting by force -/

/-- The items from the first one on that frees room enough. -/
def enough (size : α → ℕ) (a : α) (bs : List (α × ℕ)) : List (α × ℕ) :=
  bs.dropWhile fun b => cost size b < size a

/-- What is left by `force` where the item does not fit. -/
def forced (size : α → ℕ) (cap : ℕ) (a : α) (bs : List (α × ℕ)) : Bool × Store α :=
  match enough size a bs with
  | [] => (false, empty)
  | b :: rest => (true, ⟨rest ++ [(a, cap - costs size (b :: rest))], 0⟩)

theorem forced_of_lt {a : α} {b : α × ℕ} (h : cost size b < size a) (bs : List (α × ℕ)) :
    forced size cap a (b :: bs) = forced size cap a bs := by
  unfold forced enough
  rw [List.dropWhile_cons_of_pos (by simpa using h)]

theorem forced_of_le {a : α} {b : α × ℕ} (h : size a ≤ cost size b) (bs : List (α × ℕ)) :
    forced size cap a (b :: bs) = (true, ⟨bs ++ [(a, cap - costs size (b :: bs))], 0⟩) := by
  unfold forced enough
  rw [List.dropWhile_cons_of_neg (by simpa using h)]

/-- After an item is taken from a full store, the new one fits where that one cost as much. -/
theorem force_taken (a : α) (b : α × ℕ) {bs : List (α × ℕ)} (h : costs size (b :: bs) ≤ cap) :
    force size cap a bs (cap - costs size (b :: bs)) = forced size cap a (b :: bs) := by
  have hfits (hc : size a ≤ cost size b) : used size ⟨bs, cap - costs size (b :: bs)⟩ + size a ≤ cap := by
    rw [used_mk, costs_cons] at *
    omega
  have hfull (hc : cost size b < size a) : ¬ used size ⟨bs, cap - costs size (b :: bs)⟩ + size a ≤ cap := by
    rw [used_mk, costs_cons] at *
    omega
  induction bs generalizing b with
  | nil =>
    by_cases hc : cost size b < size a
    · rw [force, if_neg (hfull hc), forced_of_lt hc]
      rfl
    · rw [force, if_pos (hfits (Nat.le_of_not_lt hc)), forced_of_le (Nat.le_of_not_lt hc), List.nil_append]
  | cons b' bs ih =>
    by_cases hc : cost size b < size a
    · rw [force, if_neg (hfull hc), forced_of_lt hc]
      have h' : costs size (b' :: bs) ≤ cap := by
        rw [costs_cons] at h
        exact Nat.le_of_add_left_le h
      refine ih b' h' (fun hc' => ?_) fun hc' => ?_
      · rw [used_mk, costs_cons] at *
        omega
      · rw [used_mk, costs_cons] at *
        omega
    · rw [force, if_pos (hfits (Nat.le_of_not_lt hc)), forced_of_le (Nat.le_of_not_lt hc)]

/-- **A put by force.** -/
theorem force_eq (a : α) {s : Store α} (h : used size s ≤ cap) :
    force size cap a s.blocks s.torn =
      if used size s + size a ≤ cap then put size cap s a else forced size cap a s.blocks := by
  obtain ⟨bs, torn⟩ := s
  by_cases hfit : used size ⟨bs, torn⟩ + size a ≤ cap
  · rw [if_pos hfit, put, if_pos hfit]
    cases bs with
    | nil => rw [force, if_pos hfit, List.nil_append]
    | cons b bs => rw [force, if_pos hfit]
  · rw [if_neg hfit]
    cases bs with
    | nil =>
      rw [force, if_neg hfit]
      rfl
    | cons b bs =>
      rw [force, if_neg hfit]
      exact force_taken a b (by unfold used at h; exact Nat.le_of_add_right_le h)

theorem enough_eq_nil {a : α} {bs : List (α × ℕ)} :
    enough size a bs = [] ↔ ∀ b ∈ bs, cost size b < size a := by
  unfold enough
  rw [List.dropWhile_eq_nil_iff]
  simp only [decide_eq_true_eq]

/-- A put by force fails where every item frees too little, and then nothing is left. -/
theorem forced_eq_false {a : α} {bs : List (α × ℕ)} :
    (forced size cap a bs).1 = false ↔ ∀ b ∈ bs, cost size b < size a := by
  rw [← enough_eq_nil]
  unfold forced
  split
  · next he => exact iff_of_true rfl he
  · next b rest he => exact iff_of_false (by simp) (by rw [he]; exact List.cons_ne_nil b rest)

theorem forced_of_false {a : α} {bs : List (α × ℕ)} (h : (forced size cap a bs).1 = false) :
    (forced size cap a bs).2 = empty := by
  unfold forced at h ⊢
  split at h
  · rfl
  · exact absurd h.symm Bool.false_ne_true

/-- Else the oldest items are gone, and the new one is behind the others. -/
theorem forced_of_true {a : α} {bs : List (α × ℕ)} (h : (forced size cap a bs).1 = true) :
    ∃ dropped kept, bs.map Prod.fst = dropped ++ kept ∧ items (forced size cap a bs).2 = kept ++ [a] := by
  unfold forced at h ⊢
  split at h
  · exact absurd h Bool.false_ne_true
  · next b rest he =>
    have hsplit : bs = (bs.takeWhile fun b => cost size b < size a) ++ b :: rest := by
      rw [← he, enough, List.takeWhile_append_dropWhile]
    refine ⟨(bs.takeWhile fun b => cost size b < size a).map Prod.fst ++ [b.1], rest.map Prod.fst, ?_, ?_⟩
    · rw [List.append_assoc, List.singleton_append, ← List.map_cons, ← List.map_append, ← hsplit]
    · rw [items, List.map_append]
      rfl

/-- Whatever is left is in order. -/
theorem items_forced_sublist (a : α) (bs : List (α × ℕ)) :
    (items (forced size cap a bs).2).Sublist (bs.map Prod.fst ++ if (forced size cap a bs).1 then [a] else []) := by
  cases hf : (forced size cap a bs).1 with
  | false =>
    rw [forced_of_false hf]
    exact List.nil_sublist _
  | true =>
    obtain ⟨dropped, kept, hsplit, hitems⟩ := forced_of_true hf
    rw [hsplit, hitems, if_pos rfl, List.append_assoc]
    exact List.sublist_append_right dropped _

/-- Every item takes room, so there are not more of them than cells. -/
theorem length_le_costs (hpos : ∀ a, 0 < size a) (bs : List (α × ℕ)) : bs.length ≤ costs size bs := by
  induction bs with
  | nil => exact Nat.le_refl 0
  | cons b bs ih =>
    have := hpos b.1
    rw [costs_cons, cost, List.length_cons]
    omega

/-! ### A store in bytes -/

section Layout

variable {β : Type*} {stop : β} {frame : α → List β}

/-- The items one after the other, each with what was written before it and given up. -/
def Layout (stop : β) (frame : α → List β) : List (α × ℕ) → ℕ → List β → Prop
  | [], torn, bytes => bytes.length = torn ∧ stop ∉ bytes
  | (a, lost) :: blocks, torn, bytes =>
    ∃ junk rest, bytes = junk ++ (frame a ++ rest) ∧ junk.length = lost ∧ stop ∉ junk ∧ Layout stop frame blocks torn rest

theorem Layout.length_eq {blocks : List (α × ℕ)} {torn : ℕ} {bytes : List β}
    (h : Layout stop frame blocks torn bytes) : bytes.length = used (fun a => (frame a).length) ⟨blocks, torn⟩ := by
  induction blocks generalizing bytes with
  | nil => rw [used_mk, costs_nil, Nat.zero_add, h.1]
  | cons b blocks ih =>
    obtain ⟨a, lost⟩ := b
    obtain ⟨junk, rest, rfl, hlen, -, hrest⟩ := h
    have := ih hrest
    rw [used_mk] at this
    rw [used_mk, costs_cons, cost_mk, List.length_append, List.length_append]
    omega

/-- What is given up is behind the last item. -/
theorem Layout.append_torn {blocks : List (α × ℕ)} {torn : ℕ} {bytes t : List β}
    (h : Layout stop frame blocks torn bytes) (ht : stop ∉ t) :
    Layout stop frame blocks (torn + t.length) (bytes ++ t) := by
  induction blocks generalizing bytes with
  | nil =>
    obtain ⟨hlen, hstop⟩ := h
    refine ⟨by rw [List.length_append, hlen], fun hm => ?_⟩
    exact (List.mem_append.mp hm).elim hstop ht
  | cons b blocks ih =>
    obtain ⟨junk, rest, rfl, hlen, hstop, hrest⟩ := h
    exact ⟨junk, rest ++ t, by rw [List.append_assoc, List.append_assoc], hlen, hstop, ih hrest⟩

/-- An item put behind the others takes what was given up before it along. -/
theorem Layout.append_frame {blocks : List (α × ℕ)} {torn : ℕ} {bytes : List β}
    (h : Layout stop frame blocks torn bytes) (a : α) :
    Layout stop frame (blocks ++ [(a, torn)]) 0 (bytes ++ frame a) := by
  induction blocks generalizing bytes with
  | nil => exact ⟨bytes, [], by rw [List.append_nil], h.1, h.2, rfl, List.not_mem_nil⟩
  | cons b blocks ih =>
    obtain ⟨junk, rest, rfl, hlen, hstop, hrest⟩ := h
    exact ⟨junk, rest ++ frame a, by rw [List.append_assoc, List.append_assoc], hlen, hstop, ih hrest⟩

end Layout

end Store
end Lib
