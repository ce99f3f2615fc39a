/-
# JSON values and their text

The values of Python's `json` without floats, `d[key]`, and `json.dumps` with
its defaults: items separated by a comma and a blank, and every character that
is not printable ASCII escaped. So its text is ASCII (`dumps_ascii`).
-/
import Netacademia.Lib.Text

namespace Lib

inductive Json
  | null
  | bool (b : Bool)
  | int (n : ℤ)
  | str (s : List Char)
  | arr (xs : List Json)
  | obj (kvs : List (List Char × Json))

namespace Json

/-- `d[key]`; nothing where Python raises: `d` is no dict, or has no such key. -/
def getItem (key : List Char) : Json → Option Json
  | .obj kvs => kvs.lookup key
  | _ => none

/-- The text of a string. -/
def asStr : Json → Option (List Char)
  | .str s => some s
  | _ => none

/-! ### Escapes -/

def dquote : Char := Char.ofNat 34

def backslash : Char := Char.ofNat 92

/-- `\uXXXX` -/
def unicodeEscape (n : ℕ) : List Char :=
  [backslash, 'u', Nat.digitChar (n / 4096 % 16), Nat.digitChar (n / 256 % 16), Nat.digitChar (n / 16 % 16),
    Nat.digitChar (n % 16)]

/-- A character of a string, as `ensure_ascii` writes it; beyond the first plane as a surrogate pair. -/
def escape (c : Char) : List Char :=
  if c = dquote ∨ c = backslash then [backslash, c]
  else if 32 ≤ c.toNat ∧ c.toNat ≤ 126 then [c]
  else if c.toNat = 8 then [backslash, 'b']
  else if c.toNat = 9 then [backslash, 't']
  else if c.toNat = 10 then [backslash, 'n']
  else if c.toNat = 12 then [backslash, 'f']
  else if c.toNat = 13 then [backslash, 'r']
  else if c.toNat < 65536 then unicodeEscape c.toNat
  else unicodeEscape (55296 + (c.toNat - 65536) / 1024) ++ unicodeEscape (56320 + (c.toNat - 65536) % 1024)

def quoted (s : List Char) : List Char := dquote :: s.flatMap escape ++ [dquote]

/-! ### `json.dumps` -/

mutual

/-- `json.dumps(v)` -/
def dumps : Json → List Char
  | .null => ['n', 'u', 'l', 'l']
  | .bool b => if b then ['t', 'r', 'u', 'e'] else ['f', 'a', 'l', 's', 'e']
  | .int n => intText n
  | .str s => quoted s
  | .arr xs => '[' :: items xs ++ [']']
  | .obj kvs => '{' :: fields kvs ++ ['}']

def items : List Json → List Char
  | [] => []
  | x :: xs => dumps x ++ (if xs.isEmpty then [] else [',', ' ']) ++ items xs

def fields : List (List Char × Json) → List Char
  | [] => []
  | (k, v) :: kvs => quoted k ++ [':', ' '] ++ dumps v ++ (if kvs.isEmpty then [] else [',', ' ']) ++ fields kvs

end

/-! ### Its text is ASCII -/

def IsAscii (cs : List Char) : Prop := ∀ c ∈ cs, c.toNat < 128

instance : DecidablePred IsAscii := fun cs => List.decidableBAll (fun c : Char => c.toNat < 128) cs

theorem isAscii_append {cs ds : List Char} (hc : IsAscii cs) (hd : IsAscii ds) : IsAscii (cs ++ ds) := by
  intro c h
  rcases List.mem_append.mp h with h | h
  · exact hc c h
  · exact hd c h

theorem isAscii_cons {c : Char} {cs : List Char} (h : c.toNat < 128) (hc : IsAscii cs) : IsAscii (c :: cs) :=
  @isAscii_append [c] cs (by simpa [IsAscii] using h) hc

theorem digitChar_mod_lt (n : ℕ) : (Nat.digitChar (n % 16)).toNat < 128 := by
  have h : ∀ d : Fin 16, (Nat.digitChar d).toNat < 128 := by decide
  exact h ⟨n % 16, Nat.mod_lt n (by decide)⟩

theorem isAscii_unicodeEscape (n : ℕ) : IsAscii (unicodeEscape n) := by
  simp [IsAscii, unicodeEscape, digitChar_mod_lt, show backslash.toNat < 128 by decide]

theorem isAscii_escape (c : Char) : IsAscii (escape c) := by
  unfold escape
  split
  · rename_i h
    rcases h with rfl | rfl <;> decide
  split
  · simp only [IsAscii, List.mem_singleton, forall_eq]
    omega
  iterate 5 (split; · decide)
  split
  · exact isAscii_unicodeEscape _
  · exact isAscii_append (isAscii_unicodeEscape _) (isAscii_unicodeEscape _)

theorem isAscii_quoted (s : List Char) : IsAscii (quoted s) := by
  refine isAscii_append (isAscii_cons (by decide) fun c h => ?_) (by decide)
  obtain ⟨d, -, h⟩ := List.mem_flatMap.mp h
  exact isAscii_escape d c h

theorem isAscii_decimal (n : ℕ) : IsAscii (decimal n) := by
  intro c h
  have hd := isDigit_decimal n c h
  simp only [Char.isDigit, Bool.and_eq_true, decide_eq_true_eq] at hd
  have : c.toNat ≤ 57 := hd.2
  omega

theorem isAscii_intText (n : ℤ) : IsAscii (intText n) := by
  cases n with
  | ofNat n => exact isAscii_decimal n
  | negSucc n => exact isAscii_cons (by decide) (isAscii_decimal (n + 1))

theorem isAscii_comma (b : Bool) : IsAscii (if b then [] else [',', ' ']) := by
  cases b <;> decide

mutual

theorem dumps_ascii : ∀ v : Json, IsAscii (dumps v)
  | .null => by rw [dumps]; decide
  | .bool b => by rw [dumps]; cases b <;> decide
  | .int n => by rw [dumps]; exact isAscii_intText n
  | .str s => by rw [dumps]; exact isAscii_quoted s
  | .arr xs => by rw [dumps]; exact isAscii_append (isAscii_cons (by decide) (items_ascii xs)) (by decide)
  | .obj kvs => by rw [dumps]; exact isAscii_append (isAscii_cons (by decide) (fields_ascii kvs)) (by decide)

theorem items_ascii : ∀ xs : List Json, IsAscii (items xs)
  | [] => by rw [items]; decide
  | x :: xs => by
    rw [items]
    exact isAscii_append (isAscii_append (dumps_ascii x) (isAscii_comma _)) (items_ascii xs)

theorem fields_ascii : ∀ kvs : List (List Char × Json), IsAscii (fields kvs)
  | [] => by rw [fields]; decide
  | (k, v) :: kvs => by
    rw [fields]
    exact isAscii_append (isAscii_append (isAscii_append (isAscii_append (isAscii_quoted k) (by decide))
      (dumps_ascii v)) (isAscii_comma _)) (fields_ascii kvs)

end

end Json
end Lib
