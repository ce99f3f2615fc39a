/-
# Unicode text

Compatibility decomposition (NFKD) and lower case, over the tables of the Unicode
character database. The tables are data that is not repeated here: `Ucd` has them,
with what they say about ASCII. `filter_nfkd` is what is left of a normalized text when
all but the ASCII characters are dropped, and `lowerFrom_eq` says which texts have a
lower case that is ASCII.
-/
import Mathlib.Data.List.Basic

namespace Lib

def isAscii (c : Char) : Bool := c.toNat < 128

/-- The Unicode character database, as far as it is used. -/
structure Ucd where
  /-- The full compatibility decomposition of a character. -/
  decomposition : Char → List Char
  /-- `Canonical_Combining_Class` -/
  combiningClass : Char → ℕ
  /-- `Lowercase_Mapping` -/
  lowercase : Char → List Char
  /-- `Final_Sigma`: a sigma after the one text and before the other ends a word. -/
  finalSigma : List Char → List Char → Bool
  decomposition_ascii : ∀ c, isAscii c = true → decomposition c = [c]
  combiningClass_ascii : ∀ c, isAscii c = true → combiningClass c = 0
  lowercase_ascii : ∀ c, isAscii c = true → lowercase c = [c.toLower]
  /-- The only ASCII text that is the lower case of another character is the `k` of the kelvin sign. -/
  lowercase_other : ∀ c, isAscii c = false → ∃ a ∈ lowercase c, a = 'k' ∨ isAscii a = false

namespace Ucd

variable (U : Ucd)

/-! ### Normalization -/

/-- A mark before marks in canonical order goes behind those of a lower class. -/
def insertMark (c : Char) : List Char → List Char
  | [] => [c]
  | d :: ds =>
    if 0 < U.combiningClass d && U.combiningClass d < U.combiningClass c then d :: insertMark c ds
    else c :: d :: ds

/-- The canonical ordering: each run of marks is sorted by their classes. -/
def canonicalOrder (cs : List Char) : List Char := cs.foldr U.insertMark []

/-- `unicodedata.normalize("NFKD", text)` -/
def nfkd (cs : List Char) : List Char := U.canonicalOrder (cs.flatMap U.decomposition)

/-! ### Lower case -/

/-- A capital sigma is the only letter whose lower case depends on where it stands. -/
def lowerFrom (before : List Char) : List Char → List Char
  | [] => []
  | c :: cs =>
    (if c = 'Σ' then [if U.finalSigma before cs then 'ς' else 'σ'] else U.lowercase c) ++
      lowerFrom (before ++ [c]) cs

/-- `text.lower()` -/
def lower (cs : List Char) : List Char := U.lowerFrom [] cs

/-! ### What they leave of ASCII -/

theorem filter_insertMark (c : Char) (cs : List Char) :
    (U.insertMark c cs).filter isAscii = (c :: cs).filter isAscii := by
  induction cs with
  | nil => rfl
  | cons d ds ih =>
    rw [insertMark]
    split
    · -- a mark goes behind a mark, and neither is ASCII
      rename_i hcls
      rw [Bool.and_eq_true, decide_eq_true_iff, decide_eq_true_iff] at hcls
      have hd : ¬ isAscii d = true := fun h => by
        have := U.combiningClass_ascii d h
        omega
      have hc : ¬ isAscii c = true := fun h => by
        have := U.combiningClass_ascii c h
        omega
      rw [List.filter_cons_of_neg hd, ih, List.filter_cons_of_neg hc, List.filter_cons_of_neg hc,
        List.filter_cons_of_neg hd]
    · rfl

theorem filter_canonicalOrder (cs : List Char) : (U.canonicalOrder cs).filter isAscii = cs.filter isAscii := by
  induction cs with
  | nil => rfl
  | cons c cs ih =>
    have hstep : U.canonicalOrder (c :: cs) = U.insertMark c (U.canonicalOrder cs) := rfl
    rw [hstep, filter_insertMark, List.filter_cons, List.filter_cons, ih]

/-- The ASCII characters of a normalized text are those of the decompositions. -/
theorem filter_nfkd (cs : List Char) :
    (U.nfkd cs).filter isAscii = cs.flatMap fun c => (U.decomposition c).filter isAscii := by
  rw [nfkd, filter_canonicalOrder, List.filter_flatMap]

/-- ASCII text is as it was. -/
theorem flatMap_ascii {cs : List Char} (h : ∀ c ∈ cs, isAscii c = true) :
    (cs.flatMap fun c => (U.decomposition c).filter isAscii) = cs := by
  induction cs with
  | nil => rfl
  | cons c cs ih =>
    have hc := h c List.mem_cons_self
    rw [List.flatMap_cons, ih fun d hd => h d (List.mem_cons_of_mem _ hd), U.decomposition_ascii c hc,
      List.filter_cons_of_pos hc]
    rfl

/-- The lower case of a text is an ASCII text without a `k` only if the text is ASCII. -/
theorem lowerFrom_eq {before cs w : List Char} (h : U.lowerFrom before cs = w)
    (hw : ∀ a ∈ w, a ≠ 'k' ∧ isAscii a = true) : (∀ c ∈ cs, isAscii c = true) ∧ w = cs.map Char.toLower := by
  induction cs generalizing before w with
  | nil =>
    obtain rfl : [] = w := h
    exact ⟨fun c hc => absurd hc List.not_mem_nil, rfl⟩
  | cons c cs ih =>
    rw [lowerFrom] at h
    have hc : isAscii c = true := by
      by_contra hn
      have hn := eq_false_of_ne_true hn
      obtain ⟨a, ha, hak⟩ : ∃ a ∈ w, a = 'k' ∨ isAscii a = false := by
        rw [← h]
        split
        · refine ⟨_, List.mem_append_left _ (List.mem_singleton_self _), Or.inr ?_⟩
          split <;> rfl
        · obtain ⟨a, ha, hak⟩ := U.lowercase_other c hn
          exact ⟨a, List.mem_append_left _ ha, hak⟩
      rcases hak with rfl | hak
      · exact (hw 'k' ha).1 rfl
      · exact absurd ((hw a ha).2.symm.trans hak) (by decide)
    have hne : c ≠ 'Σ' := by
      rintro rfl
      exact absurd hc (by decide)
    rw [if_neg hne, U.lowercase_ascii c hc, List.singleton_append] at h
    subst h
    obtain ⟨hcs, hlow⟩ := ih rfl fun a ha => hw a (List.mem_cons_of_mem _ ha)
    refine ⟨fun d hd => ?_, congrArg (c.toLower :: ·) hlow⟩
    rcases List.mem_cons.mp hd with rfl | hd
    · exact hc
    · exact hcs d hd

end Ucd
end Lib
