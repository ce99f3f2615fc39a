/-
# Reading JSON

`json.loads` on a text without floats: where the text has one, or half of a surrogate pair,
which are no values here, nothing is read. A number, a string, an array and an object each
have a scanner that returns with its value the text behind it.

* `value_dumps`: what `json.dumps` writes of a value is read back as that value, whatever
  stands behind it that a number cannot go on with; `loads_dumps` is the whole text.
-/
import Mathlib.Data.List.Nodup
import Netacademia.Lib.Json

namespace Lib
namespace Json

/-! ### Scanners -/

/-- The white space of JSON. -/
def isWs (c : Char) : Bool := c == ' ' || c == '\t' || c == '\n' || c == '\r'

def skip (cs : List Char) : List Char := cs.dropWhile isWs

/-- `0|[1-9]\d*` -/
def scanNat : List Char → Option (ℕ × List Char)
  | [] => none
  | c :: cs =>
    if c = '0' then some (0, cs)
    else if c.isDigit then
      some (Nat.ofDigitChars 10 ((c :: cs).takeWhile Char.isDigit) 0, (c :: cs).dropWhile Char.isDigit)
    else none

def startsDigit (cs : List Char) : Bool := cs.head?.any Char.isDigit

/-- A fraction or an exponent goes on with the number. -/
def isFloat : List Char → Bool
  | [] => false
  | c :: cs =>
    if c = '.' then startsDigit cs
    else if c = 'e' ∨ c = 'E' then startsDigit cs || (cs.head? == some '+' || cs.head? == some '-') && startsDigit cs.tail
    else false

def scanNumber (cs : List Char) : Option (ℤ × List Char) := do
  let neg := cs.head? == some '-'
  let (n, rest) ← scanNat (if neg then cs.tail else cs)
  if isFloat rest then none else some (if neg then -(n : ℤ) else n, rest)

def hexVal (c : Char) : Option ℕ :=
  if 48 ≤ c.toNat ∧ c.toNat ≤ 57 then some (c.toNat - 48)
  else if 97 ≤ c.toNat ∧ c.toNat ≤ 102 then some (c.toNat - 87)
  else if 65 ≤ c.toNat ∧ c.toNat ≤ 70 then some (c.toNat - 55)
  else none

/-- The number of `\uXXXX`. -/
def hex4 (a b c d : Char) : Option ℕ := do
  let a ← hexVal a
  let b ← hexVal b
  let c ← hexVal c
  let d ← hexVal d
  return 4096 * a + 256 * b + 16 * c + d

def isHigh (u : ℕ) : Bool := 55296 ≤ u && u ≤ 56319

def isLow (u : ℕ) : Bool := 56320 ≤ u && u ≤ 57343

/-- `BACKSLASH` of `json.decoder` -/
def unescape (c : Char) : Option Char :=
  if c = dquote ∨ c = backslash ∨ c = '/' then some c
  else if c = 'b' then some (Char.ofNat 8)
  else if c = 't' then some (Char.ofNat 9)
  else if c = 'n' then some (Char.ofNat 10)
  else if c = 'f' then some (Char.ofNat 12)
  else if c = 'r' then some (Char.ofNat 13)
  else none

/-- A string behind its opening quote. -/
def scanstring : List Char → Option (List Char × List Char)
  | [] => none
  | c :: cs =>
    if c = dquote then some ([], cs)
    else if c = backslash then
      match cs with
      | 'u' :: h1 :: h2 :: h3 :: h4 :: cs =>
        match hex4 h1 h2 h3 h4 with
        | none => none
        | some u =>
          if isHigh u then
            match cs with
            | b :: 'u' :: l1 :: l2 :: l3 :: l4 :: cs =>
              match hex4 l1 l2 l3 l4 with
              | none => none
              | some l =>
                if b = backslash ∧ isLow l then
                  (scanstring cs).map fun p => (Char.ofNat (65536 + (u - 55296) * 1024 + (l - 56320)) :: p.1, p.2)
                else none
            | _ => none
          else if isLow u then none
          else (scanstring cs).map fun p => (Char.ofNat u :: p.1, p.2)
      | e :: cs =>
        match unescape e with
        | none => none
        | some d => (scanstring cs).map fun p => (d :: p.1, p.2)
      | [] => none
    else if c.toNat < 32 then none
    else (scanstring cs).map fun p => (c :: p.1, p.2)

/-- `d[key] = v`; the key keeps its place. -/
def setItem (kvs : List (List Char × Json)) (key : List Char) (v : Json) : List (List Char × Json) :=
  if key ∈ kvs.map Prod.fst then kvs.map fun kv => if kv.1 = key then (key, v) else kv
  else kvs ++ [(key, v)]

def dict (kvs : List (List Char × Json)) : List (List Char × Json) :=
  kvs.foldl (fun d kv => setItem d kv.1 kv.2) []

def scanLiteral (cs : List Char) : Option (Json × List Char) :=
  if ['n', 'u', 'l', 'l'] <+: cs then some (.null, cs.drop 4)
  else if ['t', 'r', 'u', 'e'] <+: cs then some (.bool true, cs.drop 4)
  else if ['f', 'a', 'l', 's', 'e'] <+: cs then some (.bool false, cs.drop 5)
  else (scanNumber cs).map fun p => (.int p.1, p.2)

mutual

/-- A value, and the text behind it; `fuel` bounds the calls. -/
def value : ℕ → List Char → Option (Json × List Char)
  | 0, _ => none
  | _ + 1, [] => none
  | fuel + 1, c :: cs =>
    if c = dquote then (scanstring cs).map fun p => (.str p.1, p.2)
    else if c = '[' then
      if (skip cs).head? = some ']' then some (.arr [], (skip cs).tail)
      else (elements fuel (skip cs)).map fun p => (.arr p.1, p.2)
    else if c = '{' then
      if (skip cs).head? = some '}' then some (.obj [], (skip cs).tail)
      else (members fuel (skip cs)).map fun p => (.obj (dict p.1), p.2)
    else scanLiteral (c :: cs)

/-- The elements of an array, up to its end. -/
def elements : ℕ → List Char → Option (List Json × List Char)
  | 0, _ => none
  | fuel + 1, cs =>
    match value fuel cs with
    | none => none
    | some (v, rest) =>
      match skip rest with
      | [] => none
      | c :: rest =>
        if c = ']' then some ([v], rest)
        else if c = ',' then (elements fuel (skip rest)).map fun p => (v :: p.1, p.2)
        else none

/-- The members of an object, up to its end. -/
def members : ℕ → List Char → Option (List (List Char × Json) × List Char)
  | 0, _ => none
  | _ + 1, [] => none
  | fuel + 1, q :: cs =>
    if q = dquote then
      match scanstring cs with
      | none => none
      | some (key, rest) =>
        match skip rest with
        | [] => none
        | c :: rest =>
          if c = ':' then
            match value fuel (skip rest) with
            | none => none
            | some (v, rest) =>
              match skip rest with
              | [] => none
              | c :: rest =>
                if c = '}' then some ([(key, v)], rest)
                else if c = ',' then (members fuel (skip rest)).map fun p => ((key, v) :: p.1, p.2)
                else none
          else none
    else none

end

/-- `json.loads(text)` of ASCII bytes without a NUL, the only ones read here; nothing for a
ValueError. -/
def loads (text : List UInt8) : Option Json := do
  let cs ← decodeAscii text
  let (v, rest) ← value cs.length (skip cs)
  if (skip rest).isEmpty then some v else none

/-! ### What `dumps` writes is read back -/

/-- What a number does not go on with. -/
def Stops (rest : List Char) : Prop :=
  ∀ c, rest.head? = some c → c.isDigit = false ∧ c ≠ '.' ∧ c ≠ 'e' ∧ c ≠ 'E'

theorem stops_cons {c : Char} (h : c = ',' ∨ c = ']' ∨ c = '}') (cs : List Char) : Stops (c :: cs) := by
  intro d hd
  obtain rfl := Option.some.inj hd
  rcases h with rfl | rfl | rfl <;> decide

theorem isFloat_of_stops {rest : List Char} (h : Stops rest) : isFloat rest = false := by
  cases rest with
  | nil => rfl
  | cons c cs =>
    obtain ⟨-, hdot, he, hE⟩ := h c rfl
    rw [isFloat, if_neg hdot, if_neg fun hc => hc.elim he hE]

/-- Only the text of zero begins with a zero. -/
theorem decimal_head {n : ℕ} (hn : 0 < n) : (decimal n).head? ≠ some '0' := by
  induction n using Nat.strongRecOn with
  | ind n ih =>
    by_cases hlt : n < 10
    · have hall : ∀ d : Fin 10, 0 < d.val → (decimal d).head? ≠ some '0' := by decide
      exact hall ⟨n, hlt⟩ hn
    · have hdiv : 0 < n / 10 := Nat.div_pos (not_lt.mp hlt) (by decide)
      have hsplit : decimal n = decimal (n / 10) ++ [Nat.digitChar (n % 10)] :=
        Nat.toDigits_of_base_le (by decide) (not_lt.mp hlt)
      obtain ⟨c, cs, hc⟩ := List.exists_cons_of_ne_nil (Nat.toDigits_ne_nil (b := 10) (n := n / 10))
      have hrec := ih (n / 10) (Nat.div_lt_self hn (by decide)) hdiv
      rw [hsplit]
      rw [decimal, hc] at hrec ⊢
      exact hrec

theorem scanNat_decimal (n : ℕ) {rest : List Char} (h : Stops rest) : scanNat (decimal n ++ rest) = some (n, rest) := by
  rcases Nat.eq_zero_or_pos n with rfl | hn
  · rfl
  · have hd := isDigit_decimal n
    have hhead := decimal_head hn
    have hof : Nat.ofDigitChars 10 (decimal n) 0 = n := Nat.ofDigitChars_ten_toDigits
    have hspan : (decimal n ++ rest).takeWhile Char.isDigit = decimal n ∧
        (decimal n ++ rest).dropWhile Char.isDigit = rest := by
      rw [List.takeWhile_append_of_pos hd, List.dropWhile_append_of_pos hd]
      cases rest with
      | nil => exact ⟨List.append_nil _, rfl⟩
      | cons c cs =>
        have hc : ¬ c.isDigit = true := Bool.eq_false_iff.mp (h c rfl).1
        rw [List.takeWhile_cons_of_neg hc, List.dropWhile_cons_of_neg hc]
        exact ⟨List.append_nil _, rfl⟩
    obtain ⟨c, cs, hc⟩ := List.exists_cons_of_ne_nil (Nat.toDigits_ne_nil (b := 10) (n := n))
    have hcons : decimal n ++ rest = c :: (cs ++ rest) := by rw [decimal, hc, List.cons_append]
    have hc0 : c ≠ '0' := by
      rintro rfl
      rw [decimal, hc] at hhead
      exact hhead rfl
    have hcd : c.isDigit = true := hd c (by rw [decimal, hc]; exact List.mem_cons_self)
    rw [hcons, scanNat, if_neg hc0, if_pos hcd, ← hcons, hspan.1, hspan.2, hof]

theorem scanNumber_intText (n : ℤ) {rest : List Char} (h : Stops rest) :
    scanNumber (intText n ++ rest) = some (n, rest) := by
  cases n with
  | ofNat n =>
    have hne : ((decimal n ++ rest).head? == some '-') = false := by
      obtain ⟨c, cs, hc⟩ := List.exists_cons_of_ne_nil (Nat.toDigits_ne_nil (b := 10) (n := n))
      have hcd : c.isDigit = true := isDigit_decimal n c (by rw [decimal, hc]; exact List.mem_cons_self)
      rw [decimal, hc, List.cons_append, List.head?_cons]
      refine beq_eq_false_iff_ne.mpr fun he => ?_
      obtain rfl := Option.some.inj he
      exact absurd hcd (by decide)
    simp only [intText, scanNumber, hne, Bool.false_eq_true, if_false, scanNat_decimal n h, Option.bind_eq_bind,
      Option.bind_some, isFloat_of_stops h]
    rfl
  | negSucc n =>
    have hneg : (('-' :: (decimal (n + 1) ++ rest)).head? == some '-') = true := rfl
    simp only [intText, scanNumber, List.cons_append, hneg, if_true, List.tail_cons, scanNat_decimal (n + 1) h,
      Option.bind_eq_bind, Option.bind_some, isFloat_of_stops h, Bool.false_eq_true, if_false]
    rfl

/-! ### Strings -/

theorem hexVal_digitChar (n : ℕ) : hexVal (Nat.digitChar (n % 16)) = some (n % 16) := by
  have h : ∀ d : Fin 16, hexVal (Nat.digitChar d) = some d.val := by decide
  exact h ⟨n % 16, Nat.mod_lt n (by decide)⟩

theorem hex4_unicodeEscape {n : ℕ} (h : n < 65536) :
    hex4 (Nat.digitChar (n / 4096 % 16)) (Nat.digitChar (n / 256 % 16)) (Nat.digitChar (n / 16 % 16))
      (Nat.digitChar (n % 16)) = some n := by
  simp only [hex4, hexVal_digitChar, Option.bind_eq_bind, Option.bind_some, Option.pure_def, Option.some.injEq]
  omega

/-- A character of the first plane that was written as `\uXXXX`. -/
theorem scanstring_unicodeEscape {n : ℕ} (h : n < 65536) (hh : isHigh n = false) (hl : isLow n = false)
    (cs : List Char) :
    scanstring (unicodeEscape n ++ cs) = (scanstring cs).map fun p => (Char.ofNat n :: p.1, p.2) := by
  have hq : backslash ≠ dquote := by decide
  simp only [unicodeEscape, List.cons_append, List.nil_append]
  rw [scanstring, if_neg hq, if_pos rfl]
  simp only [hex4_unicodeEscape h, hh, hl, Bool.false_eq_true, if_false]

/-- A character beyond it, as a surrogate pair. -/
theorem scanstring_surrogates {n : ℕ} (h : 65536 ≤ n) (hn : n < 1114112) (cs : List Char) :
    scanstring (unicodeEscape (55296 + (n - 65536) / 1024) ++ (unicodeEscape (56320 + (n - 65536) % 1024) ++ cs)) =
      (scanstring cs).map fun p => (Char.ofNat n :: p.1, p.2) := by
  have hq : backslash ≠ dquote := by decide
  have hu : 55296 + (n - 65536) / 1024 < 65536 := by omega
  have hl : 56320 + (n - 65536) % 1024 < 65536 := by omega
  have hhigh : isHigh (55296 + (n - 65536) / 1024) = true := by
    simp only [isHigh, Bool.and_eq_true, decide_eq_true_eq]
    omega
  have hlow : isLow (56320 + (n - 65536) % 1024) = true := by
    simp only [isLow, Bool.and_eq_true, decide_eq_true_eq]
    omega
  have hval : 65536 + (55296 + (n - 65536) / 1024 - 55296) * 1024 + (56320 + (n - 65536) % 1024 - 56320) = n := by
    omega
  simp only [unicodeEscape, List.cons_append, List.nil_append]
  rw [scanstring, if_neg hq, if_pos rfl]
  simp only [hex4_unicodeEscape hu, hex4_unicodeEscape hl, hhigh, hlow, hval, if_true, and_self]

theorem scanstring_plain {c : Char} (hq : c ≠ dquote) (hb : c ≠ backslash) (h : ¬ c.toNat < 32) (cs : List Char) :
    scanstring (c :: cs) = (scanstring cs).map fun p => (c :: p.1, p.2) := by
  conv_lhs => unfold scanstring
  rw [if_neg hq, if_neg hb, if_neg h]

/-- A character behind a backslash. -/
theorem scanstring_simple {e c : Char} (he : e ≠ 'u') (hc : unescape e = some c) (cs : List Char) :
    scanstring (backslash :: e :: cs) = (scanstring cs).map fun p => (c :: p.1, p.2) := by
  have hq : backslash ≠ dquote := by decide
  conv_lhs => unfold scanstring
  rw [if_neg hq, if_pos rfl]
  split
  · next heq => exact absurd (List.cons.inj heq).1 he
  · next heq =>
    obtain ⟨rfl, rfl⟩ := List.cons.inj heq
    rw [hc]
  · next heq => exact absurd heq (List.cons_ne_nil _ _)

/-- Whatever way a character was escaped. -/
theorem scanstring_escape (c : Char) (cs : List Char) :
    scanstring (escape c ++ cs) = (scanstring cs).map fun p => (c :: p.1, p.2) := by
  have hof : Char.ofNat c.toNat = c := Char.ofNat_toNat c
  have hchar : ∀ n, c.toNat = n → c = Char.ofNat n := fun n hn => by rw [← hn, hof]
  unfold escape
  split
  · next h =>
    refine scanstring_simple ?_ (if_pos (h.imp_right .inl)) cs
    rcases h with rfl | rfl <;> decide
  next hq =>
  obtain ⟨hdq, hbs⟩ := not_or.mp hq
  split
  · next h => exact scanstring_plain hdq hbs (by omega) cs
  next hprint =>
  split
  · next h => rw [hchar 8 h]; exact scanstring_simple (by decide) (by decide) cs
  split
  · next h => rw [hchar 9 h]; exact scanstring_simple (by decide) (by decide) cs
  split
  · next h => rw [hchar 10 h]; exact scanstring_simple (by decide) (by decide) cs
  split
  · next h => rw [hchar 12 h]; exact scanstring_simple (by decide) (by decide) cs
  split
  · next h => rw [hchar 13 h]; exact scanstring_simple (by decide) (by decide) cs
  -- a character is no half of a surrogate pair
  have hvalid : c.toNat < 55296 ∨ 57343 < c.toNat ∧ c.toNat < 1114112 := c.valid
  split
  · next h =>
    have hhigh : isHigh c.toNat = false := by
      simp only [isHigh, Bool.and_eq_false_iff, decide_eq_false_iff_not]
      omega
    have hlow : isLow c.toNat = false := by
      simp only [isLow, Bool.and_eq_false_iff, decide_eq_false_iff_not]
      omega
    rw [scanstring_unicodeEscape h hhigh hlow, hof]
  · next h => rw [List.append_assoc, scanstring_surrogates (not_lt.mp h) (by omega), hof]

theorem scanstring_quoted (s rest : List Char) :
    scanstring (s.flatMap escape ++ dquote :: rest) = some (s, rest) := by
  induction s with
  | nil =>
    conv_lhs => unfold scanstring
    exact if_pos rfl
  | cons c s ih => rw [List.flatMap_cons, List.append_assoc, scanstring_escape, ih, Option.map_some]

/-! ### Values -/

/-- A value begins with no white space. -/
theorem skip_cons {c : Char} (h : isWs c = false) (cs : List Char) : skip (c :: cs) = c :: cs :=
  List.dropWhile_cons_of_neg (by rw [h]; exact Bool.false_ne_true)

theorem skip_blank (cs : List Char) : skip (' ' :: cs) = skip cs := List.dropWhile_cons_of_pos rfl

/-- The first character of a text of `dumps`, which says what scans it. -/
theorem intText_head (n : ℤ) : ∃ c cs, intText n = c :: cs ∧ (c = '-' ∨ c.isDigit = true) := by
  have hne : intText n ≠ [] := by
    cases n with
    | ofNat n => exact Nat.toDigits_ne_nil
    | negSucc n => exact List.cons_ne_nil _ _
  obtain ⟨c, cs, hc⟩ := List.exists_cons_of_ne_nil hne
  exact ⟨c, cs, hc, isDigit_intText n c (hc ▸ List.mem_cons_self)⟩

theorem isWs_of_number {c : Char} (h : c = '-' ∨ c.isDigit = true) :
    isWs c = false ∧ c ≠ dquote ∧ c ≠ '[' ∧ c ≠ '{' ∧ c ≠ 'n' ∧ c ≠ 't' ∧ c ≠ 'f' := by
  have hne : ∀ d : Char, d ≠ '-' → d.isDigit = false → c ≠ d := by
    rintro d hd hdigit rfl
    rcases h with rfl | h
    · exact hd rfl
    · exact absurd (hdigit.symm.trans h) Bool.false_ne_true
  refine ⟨?_, hne _ (by decide) (by decide), hne _ (by decide) (by decide), hne _ (by decide) (by decide),
    hne _ (by decide) (by decide), hne _ (by decide) (by decide), hne _ (by decide) (by decide)⟩
  simp [isWs, hne ' ' (by decide) (by decide), hne '\t' (by decide) (by decide), hne '\n' (by decide) (by decide),
    hne '\r' (by decide) (by decide)]

theorem dumps_head (v : Json) : ∃ c cs, dumps v = c :: cs ∧ isWs c = false ∧ c ≠ ']' := by
  cases v with
  | null => exact ⟨_, _, by rw [dumps], rfl, by decide⟩
  | bool b => cases b <;> exact ⟨_, _, by rw [dumps]; rfl, rfl, by decide⟩
  | int n =>
    obtain ⟨c, cs, hc, hn⟩ := intText_head n
    refine ⟨c, cs, by rw [dumps, hc], (isWs_of_number hn).1, ?_⟩
    rintro rfl
    rcases hn with hn | hn <;> exact absurd hn (by decide)
  | str s => exact ⟨_, _, by rw [dumps]; rfl, rfl, by decide⟩
  | arr xs => exact ⟨_, _, by rw [dumps]; rfl, rfl, by decide⟩
  | obj kvs => exact ⟨_, _, by rw [dumps]; rfl, rfl, by decide⟩

theorem skip_dumps (v : Json) (rest : List Char) : skip (dumps v ++ rest) = dumps v ++ rest := by
  obtain ⟨c, cs, hc, hws, -⟩ := dumps_head v
  rw [hc, List.cons_append, skip_cons hws]

/-! ### The calls that a text takes -/

mutual

/-- The keys of each object are different. -/
def Distinct : Json → Prop
  | .arr xs => DistinctItems xs
  | .obj kvs => (kvs.map Prod.fst).Nodup ∧ DistinctFields kvs
  | _ => True

def DistinctItems : List Json → Prop
  | [] => True
  | x :: xs => Distinct x ∧ DistinctItems xs

def DistinctFields : List (List Char × Json) → Prop
  | [] => True
  | (_, v) :: kvs => Distinct v ∧ DistinctFields kvs

end

mutual

/-- The fuel that a value takes. -/
def need : Json → ℕ
  | .null => 1
  | .bool _ => 1
  | .int _ => 1
  | .str _ => 1
  | .arr xs => 1 + needItems xs
  | .obj kvs => 1 + needFields kvs

def needItems : List Json → ℕ
  | [] => 0
  | x :: xs => 1 + need x + needItems xs

def needFields : List (List Char × Json) → ℕ
  | [] => 0
  | (_, v) :: kvs => 1 + need v + needFields kvs

end

mutual

theorem need_le : ∀ v : Json, need v ≤ (dumps v).length
  | .null => by rw [need, dumps]; decide
  | .bool b => by rw [need, dumps]; cases b <;> decide
  | .int n => by
    obtain ⟨c, cs, hc, -⟩ := intText_head n
    rw [need, dumps, hc, List.length_cons]
    exact Nat.le_add_left 1 _
  | .str s => by rw [need, dumps, quoted]; simp
  | .arr xs => by
    have h := needItems_le xs
    simp only [need, dumps, List.length_append, List.length_cons, List.length_nil]
    omega
  | .obj kvs => by
    have h := needFields_le kvs
    simp only [need, dumps, List.length_append, List.length_cons, List.length_nil]
    omega

theorem needItems_le : ∀ xs : List Json, needItems xs ≤ (items xs).length + 1
  | [] => by rw [needItems]; exact Nat.zero_le _
  | x :: xs => by
    have hx := need_le x
    have h := needItems_le xs
    cases xs with
    | nil =>
      simp only [needItems, items, List.length_append, List.isEmpty_nil, if_true, List.length_nil]
      omega
    | cons y ys =>
      rw [needItems, items]
      simp only [List.length_append, List.isEmpty_cons, Bool.false_eq_true, if_false, List.length_cons, List.length_nil]
      omega

theorem needFields_le : ∀ kvs : List (List Char × Json), needFields kvs ≤ (fields kvs).length + 1
  | [] => by rw [needFields]; exact Nat.zero_le _
  | (k, v) :: kvs => by
    have hv := need_le v
    have h := needFields_le kvs
    rw [needFields, fields]
    simp only [List.length_append, List.length_cons, List.length_nil]
    omega

end

/-! ### The round trip -/

theorem value_str (fuel : ℕ) (s rest : List Char) : value (fuel + 1) (quoted s ++ rest) = some (.str s, rest) := by
  have hcons : quoted s ++ rest = dquote :: (s.flatMap escape ++ dquote :: rest) := by simp [quoted]
  rw [hcons, value, if_pos rfl, scanstring_quoted, Option.map_some]

/-- What is no string, array or object is a literal. -/
theorem value_literal (fuel : ℕ) {c : Char} (hc : c ≠ dquote ∧ c ≠ '[' ∧ c ≠ '{') (cs : List Char) :
    value (fuel + 1) (c :: cs) = scanLiteral (c :: cs) := by
  rw [value, if_neg hc.1, if_neg hc.2.1, if_neg hc.2.2]

theorem value_int (fuel : ℕ) (n : ℤ) {rest : List Char} (h : Stops rest) :
    value (fuel + 1) (intText n ++ rest) = some (.int n, rest) := by
  obtain ⟨c, cs, hc, hnum⟩ := intText_head n
  obtain ⟨-, hq, ha, ho, hn, ht, hf⟩ := isWs_of_number hnum
  have hcons : intText n ++ rest = c :: (cs ++ rest) := by rw [hc, List.cons_append]
  have hlit : ∀ (d : Char) (w : List Char), c ≠ d → ¬ d :: w <+: c :: (cs ++ rest) := fun d w hd hp =>
    hd (List.cons_prefix_cons.mp hp).1.symm
  rw [hcons, value_literal fuel ⟨hq, ha, ho⟩, scanLiteral, if_neg (hlit _ _ hn), if_neg (hlit _ _ ht),
    if_neg (hlit _ _ hf), ← hcons, scanNumber_intText n h, Option.map_some]

/-- An element, and the elements behind it. -/
theorem elements_cons {fuel : ℕ} {x : Json} {xs : List Json} {rest : List Char}
    (hx : ∀ tail, Stops tail → value fuel (dumps x ++ tail) = some (x, tail))
    (hxs : xs ≠ [] → elements fuel (items xs ++ ']' :: rest) = some (xs, rest)) :
    elements (fuel + 1) (items (x :: xs) ++ ']' :: rest) = some (x :: xs, rest) := by
  cases xs with
  | nil =>
    have htext : items [x] ++ ']' :: rest = dumps x ++ ']' :: rest := by simp [items]
    rw [htext, elements, hx _ (stops_cons (.inr (.inl rfl)) rest)]
    rfl
  | cons y ys =>
    have htext : items (x :: y :: ys) ++ ']' :: rest = dumps x ++ ',' :: ' ' :: (items (y :: ys) ++ ']' :: rest) := by
      rw [items]
      simp
    have hskip : skip (items (y :: ys) ++ ']' :: rest) = items (y :: ys) ++ ']' :: rest := by
      rw [items, List.append_assoc, List.append_assoc]
      exact skip_dumps y _
    rw [htext, elements, hx _ (stops_cons (.inl rfl) _)]
    simp only [skip_cons (show isWs ',' = false from rfl), skip_blank, hskip, hxs (List.cons_ne_nil y ys)]
    rfl

/-- A member, and the members behind it. -/
theorem members_cons {fuel : ℕ} {k : List Char} {v : Json} {kvs : List (List Char × Json)} {rest : List Char}
    (hv : ∀ tail, Stops tail → value fuel (dumps v ++ tail) = some (v, tail))
    (hkvs : kvs ≠ [] → members fuel (fields kvs ++ '}' :: rest) = some (kvs, rest)) :
    members (fuel + 1) (fields ((k, v) :: kvs) ++ '}' :: rest) = some ((k, v) :: kvs, rest) := by
  -- the key and the colon
  have hkey : ∀ tail, Stops tail → members (fuel + 1) (quoted k ++ (':' :: ' ' :: (dumps v ++ tail))) =
      match skip tail with
      | [] => none
      | c :: rest =>
        if c = '}' then some ([(k, v)], rest)
        else if c = ',' then (members fuel (skip rest)).map fun p => ((k, v) :: p.1, p.2)
        else none := by
    intro tail ht
    have hcons : quoted k ++ (':' :: ' ' :: (dumps v ++ tail)) =
        dquote :: (k.flatMap escape ++ dquote :: ':' :: ' ' :: (dumps v ++ tail)) := by simp [quoted]
    rw [hcons, members, if_pos rfl, scanstring_quoted]
    simp only [skip_cons (show isWs ':' = false from rfl), if_true, skip_blank, skip_dumps, hv tail ht]
  cases kvs with
  | nil =>
    have htext : fields [(k, v)] ++ '}' :: rest = quoted k ++ (':' :: ' ' :: (dumps v ++ '}' :: rest)) := by
      simp [fields]
    rw [htext, hkey _ (stops_cons (.inr (.inr rfl)) rest)]
    rfl
  | cons kv kvs =>
    obtain ⟨k', v'⟩ := kv
    have htext : fields ((k, v) :: (k', v') :: kvs) ++ '}' :: rest =
        quoted k ++ (':' :: ' ' :: (dumps v ++ ',' :: ' ' :: (fields ((k', v') :: kvs) ++ '}' :: rest))) := by
      rw [fields]
      simp
    have hskip : skip (fields ((k', v') :: kvs) ++ '}' :: rest) = fields ((k', v') :: kvs) ++ '}' :: rest := by
      rw [fields, quoted]
      exact skip_cons rfl _
    rw [htext, hkey _ (stops_cons (.inl rfl) _)]
    simp only [skip_cons (show isWs ',' = false from rfl), skip_blank, hskip, hkvs (List.cons_ne_nil _ kvs)]
    rfl

/-- Different keys make a dictionary of their own. -/
theorem dict_eq_self {kvs : List (List Char × Json)} (h : (kvs.map Prod.fst).Nodup) : dict kvs = kvs := by
  have hfrom : ∀ (kvs d : List (List Char × Json)), ((d ++ kvs).map Prod.fst).Nodup →
      kvs.foldl (fun d kv => setItem d kv.1 kv.2) d = d ++ kvs := by
    intro kvs
    induction kvs with
    | nil => intro d _; exact (List.append_nil d).symm
    | cons kv kvs ih =>
      intro d hd
      have hnew : kv.1 ∉ d.map Prod.fst := by
        intro hm
        rw [List.map_append, List.map_cons] at hd
        exact (List.disjoint_of_nodup_append hd) hm List.mem_cons_self
      rw [List.foldl_cons, setItem, if_neg hnew, ih, List.append_assoc, List.singleton_append]
      rw [List.append_assoc, List.singleton_append]
      exact hd
  exact (hfrom kvs [] h).trans (List.nil_append kvs)

mutual

theorem value_dumps : ∀ (v : Json) (fuel : ℕ) (rest : List Char), Distinct v → need v ≤ fuel → Stops rest →
    value fuel (dumps v ++ rest) = some (v, rest)
  | v, 0, _, _, hf, _ => by
    have hpos : 0 < need v := by cases v <;> simp only [need] <;> omega
    omega
  | .null, fuel + 1, rest, _, _, _ => by
    rw [dumps]
    exact value_literal fuel (by decide) _
  | .bool true, fuel + 1, rest, _, _, _ => by
    rw [dumps]
    exact value_literal fuel (by decide) _
  | .bool false, fuel + 1, rest, _, _, _ => by
    rw [dumps]
    exact value_literal fuel (by decide) _
  | .int n, fuel + 1, rest, _, _, hr => by
    rw [dumps]
    exact value_int fuel n hr
  | .str s, fuel + 1, rest, _, _, _ => by
    rw [dumps]
    exact value_str fuel s rest
  | .arr xs, fuel + 1, rest, hd, hf, _ => by
    rw [Distinct] at hd
    rw [need] at hf
    have hcons : dumps (.arr xs) ++ rest = '[' :: (items xs ++ ']' :: rest) := by simp [dumps]
    rw [hcons, value, if_neg (by decide), if_pos rfl]
    cases xs with
    | nil =>
      rw [items]
      rfl
    | cons x xs =>
      obtain ⟨c, cs, hc, hws, hne⟩ := dumps_head x
      have hitems : items (x :: xs) ++ ']' :: rest = c :: (cs ++ ((if xs.isEmpty then [] else [',', ' ']) ++
          (items xs ++ ']' :: rest))) := by
        rw [items, hc]
        simp
      have hhead : ¬ (skip (items (x :: xs) ++ ']' :: rest)).head? = some ']' := by
        rw [hitems, skip_cons hws, List.head?_cons]
        exact fun he => hne (Option.some.inj he)
      have hskip : skip (items (x :: xs) ++ ']' :: rest) = items (x :: xs) ++ ']' :: rest := by
        rw [hitems, skip_cons hws]
      rw [if_neg hhead, hskip, elements_items (x :: xs) fuel rest (List.cons_ne_nil x xs) hd (by omega), Option.map_some]
  | .obj kvs, fuel + 1, rest, hd, hf, _ => by
    rw [Distinct] at hd
    rw [need] at hf
    have hcons : dumps (.obj kvs) ++ rest = '{' :: (fields kvs ++ '}' :: rest) := by simp [dumps]
    rw [hcons, value, if_neg (by decide), if_neg (by decide), if_pos rfl]
    cases kvs with
    | nil =>
      rw [fields]
      rfl
    | cons kv kvs =>
      have hfields : ∃ cs, fields (kv :: kvs) ++ '}' :: rest = dquote :: cs := by
        rw [fields, quoted]
        exact ⟨_, rfl⟩
      obtain ⟨cs, hcs⟩ := hfields
      have hskip : skip (fields (kv :: kvs) ++ '}' :: rest) = fields (kv :: kvs) ++ '}' :: rest := by
        rw [hcs]
        exact skip_cons rfl cs
      have hhead : ¬ (skip (fields (kv :: kvs) ++ '}' :: rest)).head? = some '}' := by
        rw [hskip, hcs]
        exact fun he => absurd (Option.some.inj he) (by decide)
      rw [if_neg hhead, hskip, members_fields (kv :: kvs) fuel rest (List.cons_ne_nil kv kvs) hd.2 (by omega),
        Option.map_some, dict_eq_self hd.1]

theorem elements_items : ∀ (xs : List Json) (fuel : ℕ) (rest : List Char), xs ≠ [] → DistinctItems xs →
    needItems xs ≤ fuel → elements fuel (items xs ++ ']' :: rest) = some (xs, rest)
  | [], _, _, h, _, _ => absurd rfl h
  | x :: xs, 0, _, _, _, hf => by rw [needItems] at hf; omega
  | x :: xs, fuel + 1, rest, _, hd, hf => by
    rw [DistinctItems] at hd
    rw [needItems] at hf
    exact elements_cons (fun tail => value_dumps x fuel tail hd.1 (by omega))
      fun hne => elements_items xs fuel rest hne hd.2 (by omega)

theorem members_fields : ∀ (kvs : List (List Char × Json)) (fuel : ℕ) (rest : List Char), kvs ≠ [] →
    DistinctFields kvs → needFields kvs ≤ fuel → members fuel (fields kvs ++ '}' :: rest) = some (kvs, rest)
  | [], _, _, h, _, _ => absurd rfl h
  | (k, v) :: kvs, 0, _, _, _, hf => by rw [needFields] at hf; omega
  | (k, v) :: kvs, fuel + 1, rest, _, hd, hf => by
    rw [DistinctFields] at hd
    rw [needFields] at hf
    exact members_cons (fun tail => value_dumps v fuel tail hd.1 (by omega))
      fun hne => members_fields kvs fuel rest hne hd.2 (by omega)

end

/-- `json.loads` inverts `json.dumps` on a value whose objects have different keys. -/
theorem loads_dumps {v : Json} (h : Distinct v) : loads (ascii (dumps v)) = some v := by
  have hvalue := value_dumps v (dumps v).length [] h (need_le v) (fun c hc => absurd hc.symm (Option.some_ne_none c))
  have hskip := skip_dumps v []
  rw [List.append_nil] at hvalue hskip
  rw [loads, decodeAscii_ascii (dumps_ascii v)]
  simp only [Option.bind_eq_bind, Option.bind_some, hskip, hvalue]
  rfl

end Json
end Lib
