/-
# Substrings, C strings and decimal text

`find` is the first occurrence of a word in a text (`str.find`, `strstr`);
`find_isSome_iff` says that it finds one exactly when the word is an infix.
`cstr` is the C string that starts a piece of memory. `decodeAscii` and
`encodeAscii` are Python's. `intText` is `%d`, and `pyInt` is Python's `int`,
which reads it back (`pyInt_intText`). `split` gives the words of a text.
-/
import Mathlib.Data.List.Infix

namespace Lib

/-- A word lies in a piece of a text exactly where it starts at some index and
ends before the end of the piece. -/
theorem infix_drop_take_iff {α : Type*} {w : List α} (hw : w ≠ []) (t : List α) (lo hi : ℕ) :
    w <:+: (t.take hi).drop lo ↔ ∃ i, lo ≤ i ∧ i + w.length ≤ hi ∧ w <+: t.drop i := by
  have hpos : 0 < w.length := List.length_pos_iff.mpr hw
  have hat : ∀ i, w <+: (t.take hi).drop i ↔ i + w.length ≤ hi ∧ w <+: t.drop i := by
    intro i
    rw [List.drop_take, List.prefix_take_iff, and_comm]
    exact and_congr_left fun _ => by omega
  rw [List.infix_iff_prefix_suffix]
  constructor
  · rintro ⟨_, hp, hs⟩
    obtain ⟨k, rfl⟩ : ∃ k, _ = ((t.take hi).drop lo).drop k := ⟨_, List.suffix_iff_eq_drop.mp hs⟩
    rw [List.drop_drop] at hp
    exact ⟨lo + k, Nat.le_add_right lo k, (hat (lo + k)).mp hp⟩
  · rintro ⟨i, hlo, h⟩
    refine ⟨(t.take hi).drop i, (hat i).mpr h, ?_⟩
    rw [← Nat.add_sub_cancel' hlo, ← List.drop_drop]
    exact List.drop_suffix _ _

variable {α : Type*} [DecidableEq α]

/-- The least index at which `w` occurs in the text. -/
def find (w : List α) : List α → Option ℕ
  | [] => if w = [] then some 0 else none
  | x :: xs => if w <+: x :: xs then some 0 else (find w xs).map (· + 1)

/-- A word is found exactly where it is an infix. -/
theorem find_isSome_iff (w : List α) : ∀ t : List α, (find w t).isSome ↔ w <:+: t
  | [] => by
    by_cases h : w = []
    · simp [find, h]
    · simp [find, h, List.infix_nil]
  | x :: xs => by
    rw [find, List.infix_cons_iff, ← find_isSome_iff w xs]
    by_cases h : w <+: x :: xs
    · simp [h]
    · simp [h]

/-- `w in t`, the test `t.find(w) > -1`. -/
def occurs (w t : List α) : Bool := (find w t).isSome

theorem occurs_iff (w t : List α) : occurs w t = true ↔ w <:+: t := find_isSome_iff w t

/-- A word that is found ends inside of the text. -/
theorem find_le {w t : List α} {i : ℕ} (h : find w t = some i) : i + w.length ≤ t.length := by
  induction t generalizing i with
  | nil =>
    rw [find] at h
    split at h
    · obtain rfl := Option.some.inj h
      simp [‹w = []›]
    · cases h
  | cons x xs ih =>
    rw [find] at h
    split at h
    · obtain rfl := Option.some.inj h
      simpa using List.IsPrefix.length_le ‹w <+: x :: xs›
    · obtain ⟨j, hj, rfl⟩ := Option.map_eq_some_iff.mp h
      have := ih hj
      rw [List.length_cons]
      omega

/-- More text behind an occurrence does not move the first one. -/
theorem find_append {w t : List α} {i : ℕ} (h : find w t = some i) (rest : List α) :
    find w (t ++ rest) = some i := by
  induction t generalizing i with
  | nil =>
    rw [find] at h
    split at h
    · obtain rfl := Option.some.inj h
      cases rest with
      | nil => simp [find, ‹w = []›]
      | cons y ys => simp [find, ‹w = []›]
    · cases h
  | cons x xs ih =>
    rw [find] at h
    rw [List.cons_append, find]
    split at h
    · have hp : w <+: x :: (xs ++ rest) := List.IsPrefix.trans ‹_› (List.prefix_append (x :: xs) rest)
      rw [if_pos hp]
      exact h
    · obtain ⟨j, hj, rfl⟩ := Option.map_eq_some_iff.mp h
      have hlen : w.length ≤ (x :: xs).length := by
        have := find_le hj
        rw [List.length_cons]
        omega
      have hnot : ¬ w <+: x :: (xs ++ rest) := fun hp =>
        ‹¬ w <+: x :: xs› (List.prefix_of_prefix_length_le hp (List.prefix_append (x :: xs) rest) hlen)
      rw [if_neg hnot, ih hj, Option.map_some]

/-- The bytes of a text of ASCII characters. -/
def ascii (cs : List Char) : List UInt8 := cs.map fun c => c.toNat.toUInt8

/-- The C string at the start of a piece of memory: the bytes before the first NUL. -/
def cstr (mem : List UInt8) : List UInt8 := mem.takeWhile (· ≠ 0)

/-- A NUL-free start of the memory is the start of its string. -/
theorem cstr_append {w rest : List UInt8} (h : 0 ∉ w) : cstr (w ++ rest) = w ++ cstr rest := by
  refine List.takeWhile_append_of_pos fun x hx => ?_
  simpa using fun he : x = 0 => h (he ▸ hx)

theorem cstr_isPrefix (mem : List UInt8) : cstr mem <+: mem := List.takeWhile_prefix _

theorem cstr_eq_self {w : List UInt8} (h : 0 ∉ w) : cstr w = w := by
  have hw : cstr (w ++ []) = w ++ cstr [] := cstr_append h
  rwa [List.append_nil, show cstr [] = [] from rfl, List.append_nil] at hw

/-- A NUL in the start of the memory ends the string there. -/
theorem cstr_append_of_mem {w : List UInt8} (rest : List UInt8) (h : 0 ∈ w) : cstr (w ++ rest) = cstr w := by
  induction w with
  | nil => cases h
  | cons b w ih =>
    by_cases hb : b = 0
    · simp [cstr, hb]
    · have hw : 0 ∈ w := (List.mem_cons.mp h).resolve_left (Ne.symm hb)
      simpa [cstr, hb] using ih hw

/-- The terminator stands behind the string. -/
theorem cstr_length_lt {w : List UInt8} (h : 0 ∈ w) : (cstr w).length < w.length := by
  induction w with
  | nil => cases h
  | cons b w ih =>
    by_cases hb : b = 0
    · simp [cstr, hb]
    · have hw : 0 ∈ w := (List.mem_cons.mp h).resolve_left (Ne.symm hb)
      simpa [cstr, hb] using ih hw

/-- `%d` of a non-negative number. -/
def decimal (n : ℕ) : List Char := Nat.toDigits 10 n

/-- `%d`. -/
def intText : ℤ → List Char
  | .ofNat n => decimal n
  | .negSucc n => '-' :: decimal (n + 1)

/-! ### ASCII text -/

/-- The text of ASCII bytes. -/
def asciiText (bs : List UInt8) : List Char := bs.map fun b => Char.ofNat b.toNat

/-- `data.decode('ascii')` -/
def decodeAscii (bs : List UInt8) : Option (List Char) :=
  if bs.all (· < 128) then some (asciiText bs) else none

/-- `text.encode('ascii')` -/
def encodeAscii (cs : List Char) : Option (List UInt8) :=
  if cs.all (·.toNat < 128) then some (ascii cs) else none

theorem toUInt8_toNat {c : Char} (h : c.toNat < 128) : c.toNat.toUInt8.toNat = c.toNat := by
  simp only [Nat.toUInt8, UInt8.toNat_ofNat']
  omega

/-- The text of the bytes of a text. -/
theorem decodeAscii_ascii {cs : List Char} (h : ∀ c ∈ cs, c.toNat < 128) :
    decodeAscii (ascii cs) = some cs := by
  have hlt : (ascii cs).all (· < 128) = true := by
    rw [List.all_eq_true]
    intro b hb
    obtain ⟨c, hc, rfl⟩ := List.mem_map.mp hb
    rw [decide_eq_true_iff, UInt8.lt_iff_toNat_lt, toUInt8_toNat (h c hc)]
    exact h c hc
  rw [decodeAscii, if_pos hlt, asciiText, ascii, List.map_map]
  refine congrArg some ((List.map_congr_left fun c hc => ?_).trans (List.map_id cs))
  simp only [Function.comp, toUInt8_toNat (h c hc), Char.ofNat_toNat, id]

/-- The bytes of the text of ASCII bytes. -/
theorem encodeAscii_asciiText {bs : List UInt8} (h : bs.all (· < 128) = true) :
    encodeAscii (asciiText bs) = some bs := by
  have hval : ∀ n : Fin 128, (Char.ofNat n).toNat = n := by decide
  have hchar : ∀ b ∈ bs, (Char.ofNat b.toNat).toNat = b.toNat ∧ b.toNat < 128 := fun b hb => by
    have hlt : b.toNat < 128 := UInt8.lt_iff_toNat_lt.mp (of_decide_eq_true (List.all_eq_true.mp h b hb))
    exact ⟨hval ⟨b.toNat, hlt⟩, hlt⟩
  have hall : (asciiText bs).all (·.toNat < 128) = true := by
    rw [List.all_eq_true]
    intro c hc
    obtain ⟨b, hb, rfl⟩ := List.mem_map.mp hc
    obtain ⟨he, hlt⟩ := hchar b hb
    rw [decide_eq_true_iff, he]
    exact hlt
  rw [encodeAscii, if_pos hall, ascii, asciiText, List.map_map]
  refine congrArg some ((List.map_congr_left fun b hb => ?_).trans (List.map_id bs))
  simp only [Function.comp, (hchar b hb).1, id]
  exact UInt8.ofNat_toNat

/-! ### `int(text)` -/

/-- The blanks that `int` strips of an ASCII text. The separators 28 to 31 are not
among them, though `str.split` splits at these (`isSpace`). -/
def isBlank (c : Char) : Bool := (9 ≤ c.toNat && c.toNat ≤ 13) || c.toNat == 32

def digitVal (c : Char) : ℕ := c.toNat - 48

/-- Digits after others with value `n`; a single underscore may stand before a digit. -/
def digitsFrom (n : ℕ) : List Char → Option ℕ
  | [] => some n
  | '_' :: c :: cs => if c.isDigit then digitsFrom (10 * n + digitVal c) cs else none
  | c :: cs => if c.isDigit then digitsFrom (10 * n + digitVal c) cs else none

def natOf : List Char → Option ℕ
  | [] => none
  | c :: cs => if c.isDigit then digitsFrom (digitVal c) cs else none

def strip (cs : List Char) : List Char := ((cs.dropWhile isBlank).reverse.dropWhile isBlank).reverse

/-- `int(text)`; nothing for a `ValueError`. -/
def pyInt (cs : List Char) : Option ℤ :=
  match strip cs with
  | '-' :: ds => (natOf ds).map fun n => -(n : ℤ)
  | '+' :: ds => (natOf ds).map Int.ofNat
  | ds => (natOf ds).map Int.ofNat

theorem digitsFrom_eq {cs : List Char} (h : ∀ c ∈ cs, c.isDigit = true) (n : ℕ) :
    digitsFrom n cs = some (Nat.ofDigitChars 10 cs n) := by
  induction cs generalizing n with
  | nil => simp [digitsFrom]
  | cons c cs ih =>
    have hc : c.isDigit = true := h c List.mem_cons_self
    have hne : c ≠ '_' := by
      rintro rfl
      cases hc
    rw [digitsFrom, if_pos hc, ih fun d hd => h d (List.mem_cons_of_mem _ hd), Nat.ofDigitChars_cons]
    · rfl
    · intro d ds he
      exact absurd he hne

theorem dropWhile_isBlank {cs : List Char} (h : ∀ c ∈ cs, isBlank c = false) :
    cs.dropWhile isBlank = cs := by
  cases cs with
  | nil => rfl
  | cons c cs => simp [h c List.mem_cons_self]

theorem strip_eq {cs : List Char} (h : ∀ c ∈ cs, isBlank c = false) : strip cs = cs := by
  have hr : ∀ c ∈ cs.reverse, isBlank c = false := fun c hc => h c (List.mem_reverse.mp hc)
  rw [strip, dropWhile_isBlank h, dropWhile_isBlank hr, List.reverse_reverse]

theorem isBlank_of_isDigit {c : Char} (h : c.isDigit = true) : isBlank c = false := by
  simp only [Char.isDigit, Bool.and_eq_true, decide_eq_true_eq] at h
  have h48 : 48 ≤ c.toNat := h.1
  simp only [isBlank, Bool.or_eq_false_iff, Bool.and_eq_false_iff, decide_eq_false_iff_not, beq_eq_false_iff_ne]
  omega

theorem isDigit_decimal (n : ℕ) : ∀ c ∈ decimal n, c.isDigit = true := fun _ hc =>
  Nat.isDigit_of_mem_toDigits (by decide) (by decide) hc

theorem natOf_decimal (n : ℕ) : natOf (decimal n) = some n := by
  have hd := isDigit_decimal n
  obtain ⟨c, cs, hc⟩ := List.exists_cons_of_ne_nil (Nat.toDigits_ne_nil (b := 10) (n := n))
  have hof : Nat.ofDigitChars 10 (c :: cs) 0 = n := hc ▸ Nat.ofDigitChars_ten_toDigits
  rw [decimal, hc] at hd ⊢
  rw [natOf, if_pos (hd c List.mem_cons_self), digitsFrom_eq fun d h => hd d (List.mem_cons_of_mem _ h), ← hof,
    Nat.ofDigitChars_cons]
  simp [digitVal]

/-- `int` reads back the text of a number. -/
theorem pyInt_decimal (n : ℕ) : pyInt (decimal n) = some (n : ℤ) := by
  have hd := isDigit_decimal n
  rw [pyInt, strip_eq fun c hc => isBlank_of_isDigit (hd c hc)]
  split
  · rename_i ds he
    exact absurd (hd '-' (by simp [he])) (by decide)
  · rename_i ds he
    exact absurd (hd '+' (by simp [he])) (by decide)
  · rw [natOf_decimal]
    rfl

theorem isDigit_intText (n : ℤ) : ∀ c ∈ intText n, c = '-' ∨ c.isDigit = true := by
  intro c hc
  cases n with
  | ofNat n => exact Or.inr (isDigit_decimal n c hc)
  | negSucc n => exact (List.mem_cons.mp hc).imp_right (isDigit_decimal (n + 1) c)

/-- The same with a sign. -/
theorem pyInt_intText (n : ℤ) : pyInt (intText n) = some n := by
  cases n with
  | ofNat n => exact pyInt_decimal n
  | negSucc n =>
    have hblank : ∀ c ∈ intText (Int.negSucc n), isBlank c = false := fun c hc => by
      rcases isDigit_intText _ c hc with rfl | hd
      · rfl
      · exact isBlank_of_isDigit hd
    rw [pyInt, strip_eq hblank, intText]
    simp only [natOf_decimal]
    rfl

/-! ### `text.split()` -/

/-- The blanks of an ASCII text at which `split` splits. -/
def isSpace (c : Char) : Bool := (9 ≤ c.toNat && c.toNat ≤ 13) || (28 ≤ c.toNat && c.toNat ≤ 32)

/-- The words of a text. -/
def split (cs : List Char) : List (List Char) := (cs.splitOnP isSpace).filter (!·.isEmpty)

/-- A text that ends with a part of a word, as its last word; the words before and the
beginning of this one are the rest of the text without its blanks. -/
theorem split_append (cs : List Char) {w : List Char} (hne : w ≠ []) (hw : ∀ c ∈ w, isSpace c = false) :
    ∃ ws v, split (cs ++ w) = ws ++ [v ++ w] ∧ ws.flatten ++ v = cs.filter (!isSpace ·) := by
  have hparts : ∃ ws v, (cs ++ w).splitOnP isSpace = ws ++ [v ++ w] ∧
      ws.flatten ++ v = cs.filter (!isSpace ·) := by
    induction cs with
    | nil => exact ⟨[], [], List.splitOnP_eq_singleton hw, rfl⟩
    | cons c cs ih =>
      obtain ⟨ws, v, hs, hf⟩ := ih
      rw [List.cons_append, List.splitOnP_cons_eq_if_modifyHead, hs]
      cases hc : isSpace c with
      | true => exact ⟨[] :: ws, v, by simp, by simp [hf, hc]⟩
      | false =>
        cases ws with
        | nil => exact ⟨[], c :: v, by simp, by simp [← hf, hc]⟩
        | cons u ws => exact ⟨(c :: u) :: ws, v, by simp, by simp [← hf, hc]⟩
  obtain ⟨ws, v, hs, hf⟩ := hparts
  refine ⟨ws.filter (!·.isEmpty), v, ?_, ?_⟩
  · simp [split, hs, hne]
  · rw [← hf]
    simp [List.flatten_filter_not_isEmpty]

end Lib
