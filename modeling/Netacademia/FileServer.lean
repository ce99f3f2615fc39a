/-
# The upload of the file server

`allowed_file` and `upload_file` of `python-beginner/4.ora/filehttpserver.py`, with
werkzeug's `secure_filename`. The extension is checked in the name that the client
gives, and the file is stored under the name that `secure_filename` makes of it:
ASCII only, blanks and separators joined by underscores, and no dots or underscores
at its ends. With nothing else before the dot, the dot goes, too: `.txt` is stored
as `txt`.

* `stored_allowed_iff`: the name of the stored file passes the check exactly when
  there is an ASCII letter, a digit or a hyphen in the decomposition of what stands
  before the last dot.
-/
import Mathlib.Data.List.DropRight
import Netacademia.Lib.Text
import Netacademia.Lib.Unicode

namespace Netacademia
namespace FileServer

open Lib

/-- Where the server runs: the tables of Unicode, and the separators of its paths. -/
structure Platform where
  ucd : Ucd
  /-- `os.sep` and `os.path.altsep` -/
  seps : List Char
  seps_slash : ∀ c ∈ seps, c = '/' ∨ c = '\\'

def ALLOWED_EXTENSIONS : List (List Char) := [['t', 'x', 't'], ['c', 's', 'v']]

/-- `filename.rsplit('.', 1)[1]` -/
def extension (filename : List Char) : List Char := filename.rtakeWhile (· != '.')

/-- `filename.rsplit('.', 1)[0]` -/
def stem (filename : List Char) : List Char := (filename.rdropWhile (· != '.')).dropLast

section Upload

variable (P : Platform)

def allowedFile (filename : List Char) : Bool :=
  filename.contains '.' && ALLOWED_EXTENSIONS.contains (P.ucd.lower (extension filename))

/-- `[A-Za-z0-9_.-]` -/
def isPlain (c : Char) : Bool := c.isAlphanum || c == '_' || c == '.' || c == '-'

/-- The characters that `strip('._')` takes off. -/
def isDotOrUnderscore (c : Char) : Bool := c == '.' || c == '_'

def secureFilename (filename : List Char) : List Char :=
  let filename := (P.ucd.nfkd filename).filter isAscii
  let filename := filename.map fun c => if P.seps.contains c then ' ' else c
  let filename := (['_'].intercalate (split filename)).filter isPlain
  (filename.dropWhile isDotOrUnderscore).rdropWhile isDotOrUnderscore

structure Request where
  /-- The method is POST. -/
  post : Bool
  /-- The filename of the part `file`, if there is one. -/
  file : Option (List Char)
  deriving DecidableEq, Repr

inductive Response
  /-- `flash` raises, for the application has no secret key; its `redirect` is not reached. -/
  | error
  /-- The file is stored in the upload folder under the name. -/
  | stored (filename : List Char)
  | page
  deriving DecidableEq, Repr

def uploadFile (request : Request) : Response :=
  if request.post then
    match request.file with
    | none => .error
    | some filename =>
      if filename = [] then .error
      else if allowedFile P filename then .stored (secureFilename P filename)
      else .page
  else .page

/-- A character that `secure_filename` neither drops, joins over nor strips. -/
def isNameChar (c : Char) : Bool := c.isAlphanum || c == '-'

/-- Before the last dot of the name there is a character of a name, or one that is
decomposed to one. -/
def Named (filename : List Char) : Prop :=
  ∃ c ∈ stem filename, ∃ a ∈ P.ucd.decomposition c, isNameChar a = true

end Upload

/-! ### The extension -/

theorem stem_append_extension {filename : List Char} (h : filename.contains '.' = true) :
    filename = stem filename ++ '.' :: extension filename := by
  have hne : filename.rdropWhile (· != '.') ≠ [] := by
    rw [Ne, List.rdropWhile_eq_nil_iff]
    intro hall
    have hdot := hall '.' (by simpa using h)
    exact absurd hdot (by decide)
  have hlast : (filename.rdropWhile (· != '.')).getLast hne = '.' := by
    simpa using List.rdropWhile_last_not (· != '.') filename hne
  calc filename = filename.rdropWhile (· != '.') ++ extension filename :=
        List.rdropWhile_append_rtakeWhile.symm
    _ = (stem filename ++ [(filename.rdropWhile (· != '.')).getLast hne]) ++ extension filename := by
        rw [stem, List.dropLast_append_getLast]
    _ = stem filename ++ '.' :: extension filename := by
        rw [hlast, List.append_assoc, List.singleton_append]

theorem extension_append (x : List Char) {ext : List Char} (h : '.' ∉ ext) : extension (x ++ '.' :: ext) = ext := by
  have hext : ∀ c ∈ ext.reverse, (c != '.') = true := fun c hc => by
    rw [bne_iff_ne]
    rintro rfl
    exact h (List.mem_reverse.mp hc)
  rw [extension, List.rtakeWhile, List.reverse_append, List.reverse_cons, List.append_assoc,
    List.takeWhile_append_of_pos hext]
  simp

/-- The names with an extension that is allowed. -/
theorem allowedFile_append (P : Platform) (x : List Char) {ext : List Char} (h : '.' ∉ ext) :
    allowedFile P (x ++ '.' :: ext) = ALLOWED_EXTENSIONS.contains (P.ucd.lower ext) := by
  rw [allowedFile, extension_append x h]
  simp

section Chars

variable {c : Char}

theorem isAscii_of_isAlphanum (h : c.isAlphanum = true) : isAscii c = true := by
  have hle : c.val ≤ 122 := by
    rcases Bool.or_eq_true_iff.mp (show (c.isAlpha || c.isDigit) = true from h) with h | h
    · rcases Bool.or_eq_true_iff.mp (show (c.isUpper || c.isLower) = true from h) with h | h
      · have hu : c.val ≥ 'A'.val ∧ c.val ≤ 'Z'.val := of_decide_eq_true h
        exact UInt32.le_trans hu.2 (by decide)
      · exact of_decide_eq_true (Bool.and_eq_true_iff.mp h).2
    · have hd : c.val ≤ '9'.val := of_decide_eq_true (Bool.and_eq_true_iff.mp h).2
      exact UInt32.le_trans hd (by decide)
  have hnat : c.toNat ≤ 122 := hle
  rw [isAscii, decide_eq_true_iff]
  omega

theorem isAlphanum_of_toLower (h : c.toLower.isAlphanum = true) : c.isAlphanum = true := by
  by_cases hu : c.val ≥ 'A'.val ∧ c.val ≤ 'Z'.val
  · have hupper : c.isUpper = true := decide_eq_true hu
    have halpha : c.isAlpha = true := Bool.or_eq_true_iff.mpr (Or.inl hupper)
    exact Bool.or_eq_true_iff.mpr (Or.inl halpha)
  · have hlow : c.toLower = c := dif_neg hu
    rwa [hlow] at h

theorem isNameChar_of_isAlphanum (h : c.isAlphanum = true) : isNameChar c = true := by
  rw [isNameChar, h, Bool.true_or]

theorem isAscii_of_isNameChar (h : isNameChar c = true) : isAscii c = true := by
  rw [isNameChar, Bool.or_eq_true, beq_iff_eq] at h
  rcases h with h | rfl
  · exact isAscii_of_isAlphanum h
  · rfl

/-- What the passes of `secure_filename` do not touch. -/
theorem untouched (h : isNameChar c = true) :
    isSpace c = false ∧ isPlain c = true ∧ isDotOrUnderscore c = false ∧ c ≠ '/' ∧ c ≠ '\\' := by
  have hall : ∀ n : Fin 128, isNameChar (Char.ofNat n) = true →
      isSpace (Char.ofNat n) = false ∧ isPlain (Char.ofNat n) = true ∧ isDotOrUnderscore (Char.ofNat n) = false ∧
        Char.ofNat n ≠ '/' ∧ Char.ofNat n ≠ '\\' := by
    decide +kernel
  have hlt : c.toNat < 128 := of_decide_eq_true (isAscii_of_isNameChar h)
  have hc := hall ⟨c.toNat, hlt⟩
  rw [Char.ofNat_toNat] at hc
  exact hc h

theorem isPlain_iff : isPlain c = true ↔ isNameChar c = true ∨ isDotOrUnderscore c = true := by
  simp only [isPlain, isNameChar, isDotOrUnderscore, Bool.or_eq_true]
  tauto

end Chars

/-- An extension that is allowed consists of ASCII letters. -/
theorem isAlphanum_extension {P : Platform} {ext : List Char}
    (h : ALLOWED_EXTENSIONS.contains (P.ucd.lower ext) = true) : ext ≠ [] ∧ ∀ c ∈ ext, c.isAlphanum = true := by
  have hw : ALLOWED_EXTENSIONS.all (fun w => !w.isEmpty && w.all fun a => a != 'k' && isAscii a && a.isAlphanum) =
      true := rfl
  have hmem : P.ucd.lower ext ∈ ALLOWED_EXTENSIONS := by simpa using h
  obtain ⟨hne, hall⟩ := Bool.and_eq_true_iff.mp (List.all_eq_true.mp hw _ hmem)
  have hchar : ∀ a ∈ P.ucd.lower ext, (a ≠ 'k' ∧ isAscii a = true) ∧ a.isAlphanum = true := fun a ha => by
    simpa only [Bool.and_eq_true, bne_iff_ne] using List.all_eq_true.mp hall a ha
  obtain ⟨-, hlow⟩ := P.ucd.lowerFrom_eq rfl fun a ha => (hchar a ha).1
  refine ⟨?_, fun c hc => ?_⟩
  · rintro rfl
    exact absurd hne Bool.false_ne_true
  · refine isAlphanum_of_toLower (hchar c.toLower ?_).2
    rw [Ucd.lower, hlow]
    exact List.mem_map_of_mem hc

/-! ### The passes -/

section Passes

variable (P : Platform) {ext : List Char}

/-- The ASCII text of a name. -/
def folded (cs : List Char) : List Char := cs.flatMap fun c => (P.ucd.decomposition c).filter isAscii

theorem mem_folded {cs : List Char} {a : Char} (ha : isNameChar a = true) :
    a ∈ folded P cs ↔ ∃ c ∈ cs, a ∈ P.ucd.decomposition c := by
  rw [folded, List.mem_flatMap]
  refine exists_congr fun c => and_congr_right fun _ => ?_
  rw [List.mem_filter]
  exact and_iff_left (isAscii_of_isNameChar ha)

/-- The separators are blanks now. -/
def unslashed (cs : List Char) : List Char := cs.map fun c => if P.seps.contains c then ' ' else c

theorem unslashed_eq {cs : List Char} (h : ∀ c ∈ cs, c ≠ '/' ∧ c ≠ '\\') : unslashed P cs = cs := by
  refine (List.map_congr_left fun c hc => ?_).trans (List.map_id cs)
  have hsep : ¬ P.seps.contains c = true := fun hs => by
    rcases P.seps_slash c (by simpa using hs) with he | he
    · exact (h c hc).1 he
    · exact (h c hc).2 he
  rw [if_neg hsep, id]

theorem mem_unslashed {cs : List Char} {a : Char} (ha : isNameChar a = true) : a ∈ unslashed P cs ↔ a ∈ cs := by
  obtain ⟨hspace, -, -, hslash⟩ := untouched ha
  rw [unslashed, List.mem_map]
  constructor
  · rintro ⟨c, hc, he⟩
    split at he
    · rw [← he] at hspace
      exact absurd hspace (by decide)
    · exact he ▸ hc
  · intro hm
    have hone : unslashed P [a] = [a] := unslashed_eq P fun c hc => List.mem_singleton.mp hc ▸ hslash
    exact ⟨a, hm, List.singleton_inj.mp hone⟩

/-- The words before the last one, each with its underscore. -/
theorem intercalate_concat (ws : List (List Char)) (v : List Char) :
    ['_'].intercalate (ws ++ [v]) = ws.flatMap (· ++ ['_']) ++ v := by
  induction ws with
  | nil => simp
  | cons w ws ih =>
    rw [List.cons_append, List.intercalate_cons_of_ne_nil (by simp), ih, List.flatMap_cons, List.append_assoc,
      List.append_assoc, List.append_assoc]

/-- The words of a text that ends with the extension, joined. -/
theorem joined_append (cs : List Char) {w : List Char} (hne : w ≠ []) (hw : ∀ c ∈ w, isSpace c = false) :
    ∃ y, ['_'].intercalate (split (cs ++ w)) = y ++ w ∧ ∀ a, isNameChar a = true → (a ∈ y ↔ a ∈ cs) := by
  obtain ⟨ws, v, hs, hf⟩ := split_append cs hne hw
  refine ⟨ws.flatMap (· ++ ['_']) ++ v, ?_, fun a ha => ?_⟩
  · rw [hs, intercalate_concat, List.append_assoc]
  · have hne : a ≠ '_' := by
      rintro rfl
      exact absurd ha (by decide)
    have hmem : a ∈ ws.flatMap (· ++ ['_']) ++ v ↔ a ∈ ws.flatten ++ v := by simp [hne]
    rw [hmem, hf, List.mem_filter, (untouched ha).1]
    exact and_iff_left rfl

/-- What is left of a name to be stripped: before the last dot there are the letters,
digits and hyphens of the decompositions, and dots and underscores. -/
theorem secureFilename_append (x : List Char) (hext : ∀ c ∈ ext, c.isAlphanum = true) :
    ∃ y, secureFilename P (x ++ '.' :: ext) =
        ((y ++ '.' :: ext).dropWhile isDotOrUnderscore).rdropWhile isDotOrUnderscore ∧
      (∀ a ∈ y, isPlain a = true) ∧
      ∀ a, isNameChar a = true → (a ∈ y ↔ ∃ c ∈ x, a ∈ P.ucd.decomposition c) := by
  have hun : ∀ c ∈ '.' :: ext, isAscii c = true ∧ isSpace c = false ∧ isPlain c = true ∧ c ≠ '/' ∧ c ≠ '\\' := by
    rintro c hc
    rcases List.mem_cons.mp hc with rfl | hc
    · decide
    · obtain ⟨h1, h2, -, h3⟩ := untouched (isNameChar_of_isAlphanum (hext c hc))
      exact ⟨isAscii_of_isAlphanum (hext c hc), h1, h2, h3⟩
  have hfold : (P.ucd.nfkd (x ++ '.' :: ext)).filter isAscii = folded P x ++ '.' :: ext := by
    rw [P.ucd.filter_nfkd, List.flatMap_append, P.ucd.flatMap_ascii fun c hc => (hun c hc).1]
    rfl
  have hslash : unslashed P (folded P x ++ '.' :: ext) = unslashed P (folded P x) ++ '.' :: ext := by
    have hid := unslashed_eq P fun c hc => (hun c hc).2.2.2
    rw [unslashed, List.map_append]
    exact congrArg (unslashed P (folded P x) ++ ·) hid
  obtain ⟨y, hjoin, hmem⟩ :=
    joined_append (unslashed P (folded P x)) (List.cons_ne_nil '.' ext) fun c hc => (hun c hc).2.1
  have hfilter : ('.' :: ext).filter isPlain = '.' :: ext := List.filter_eq_self.mpr fun c hc => (hun c hc).2.2.1
  refine ⟨y.filter isPlain, ?_, fun a ha => (List.mem_filter.mp ha).2, fun a ha => ?_⟩
  · have hpass : (['_'].intercalate (split (unslashed P ((P.ucd.nfkd (x ++ '.' :: ext)).filter isAscii)))).filter
        isPlain = y.filter isPlain ++ '.' :: ext := by
      rw [hfold, hslash, hjoin, List.filter_append, hfilter]
    rw [← hpass]
    rfl
  · rw [List.mem_filter, and_iff_left (untouched ha).2.1, hmem a ha, mem_unslashed P ha, mem_folded P ha]

/-- The strip keeps the dot before the extension where there is a character of a name
before it. -/
theorem strip_append {y : List Char} (hy : ∀ a ∈ y, isPlain a = true) (hne : ext ≠ [])
    (hext : ∀ c ∈ ext, c.isAlphanum = true) :
    ((y ++ '.' :: ext).dropWhile isDotOrUnderscore).rdropWhile isDotOrUnderscore =
      if y.any isNameChar then y.dropWhile isDotOrUnderscore ++ '.' :: ext else ext := by
  have hstay : ∀ c ∈ ext, ¬ isDotOrUnderscore c = true := fun c hc => by
    rw [(untouched (isNameChar_of_isAlphanum (hext c hc))).2.2.1]
    exact Bool.false_ne_true
  -- the last letter of the extension ends the strip from the right
  have hright : ∀ z, (z ++ ext).rdropWhile isDotOrUnderscore = z ++ ext := fun z => by
    rw [List.rdropWhile_eq_self_iff]
    intro hl
    rw [List.getLast_append_of_ne_nil hl hne]
    exact hstay _ (List.getLast_mem hne)
  have hleft : ('.' :: ext).dropWhile isDotOrUnderscore = ext := by
    obtain ⟨c, cs, rfl⟩ := List.exists_cons_of_ne_nil hne
    rw [List.dropWhile_cons_of_pos rfl, List.dropWhile_cons_of_neg (hstay c List.mem_cons_self)]
  have hempty : (y.dropWhile isDotOrUnderscore).isEmpty = !y.any isNameChar := by
    rw [Bool.eq_iff_iff, List.isEmpty_iff, List.dropWhile_eq_nil_iff, Bool.not_eq_true', List.any_eq_false]
    refine forall₂_congr fun a ha => ⟨fun hd hn => ?_, fun hn => ?_⟩
    · rw [(untouched hn).2.2.1] at hd
      cases hd
    · exact (isPlain_iff.mp (hy a ha)).resolve_left hn
  rw [List.dropWhile_append, hempty, hleft]
  cases y.any isNameChar with
  | true =>
    have hdot : y.dropWhile isDotOrUnderscore ++ '.' :: ext = (y.dropWhile isDotOrUnderscore ++ ['.']) ++ ext := by
      rw [List.append_assoc, List.singleton_append]
    rw [Bool.not_true, if_neg Bool.false_ne_true, if_pos rfl, hdot, hright]
  | false => rw [Bool.not_false, if_pos rfl, if_neg Bool.false_ne_true, ← List.nil_append ext, hright]

end Passes

/-! ### The stored name -/

/-- What `upload_file` stores is a name that was allowed, rewritten. -/
theorem stored_iff {P : Platform} {filename name : List Char} :
    uploadFile P ⟨true, some filename⟩ = .stored name ↔
      allowedFile P filename = true ∧ name = secureFilename P filename := by
  have hne : allowedFile P filename = true → filename ≠ [] := by
    rintro ha rfl
    cases ha
  rw [uploadFile, if_pos rfl]
  by_cases h0 : filename = []
  · simp only [if_pos h0]
    exact iff_of_false (by simp) fun h => hne h.1 h0
  · by_cases ha : allowedFile P filename = true
    · simp only [if_neg h0, if_pos ha, Response.stored.injEq]
      exact ⟨fun h => ⟨ha, h.symm⟩, fun h => h.2.symm⟩
    · simp only [if_neg h0, if_neg ha]
      exact iff_of_false (by simp) fun h => ha h.1

theorem allowed_secure_iff {P : Platform} {filename : List Char} (h : allowedFile P filename = true) :
    allowedFile P (secureFilename P filename) = true ↔ Named P filename := by
  obtain ⟨hdot, hext⟩ := Bool.and_eq_true_iff.mp h
  obtain ⟨hne, hal⟩ := isAlphanum_extension hext
  have hnodot : '.' ∉ extension filename := fun hm => absurd (hal '.' hm) (by decide)
  obtain ⟨y, hs, hplain, hmem⟩ := secureFilename_append P (stem filename) hal
  rw [← stem_append_extension hdot, strip_append hplain hne hal] at hs
  have hany : y.any isNameChar = true ↔ Named P filename := by
    rw [List.any_eq_true, Named]
    constructor
    · rintro ⟨a, ha, hn⟩
      obtain ⟨c, hc, hd⟩ := (hmem a hn).mp ha
      exact ⟨c, hc, a, hd, hn⟩
    · rintro ⟨c, hc, a, hd, hn⟩
      exact ⟨a, (hmem a hn).mpr ⟨c, hc, hd⟩, hn⟩
  rw [hs, ← hany]
  by_cases hn : y.any isNameChar = true
  · rw [if_pos hn, allowedFile_append P _ hnodot]
    exact iff_of_true hext hn
  · rw [if_neg hn, allowedFile]
    exact iff_of_false (by simp [hnodot]) hn

/-- **When the stored name passes the check.** A file that `upload_file` stores has a
name with an extension that is allowed if and only if there is an ASCII letter, a digit
or a hyphen in the decomposition of what the client's name has before its last dot. -/
theorem stored_allowed_iff (P : Platform) (filename name : List Char)
    (h : uploadFile P ⟨true, some filename⟩ = .stored name) : allowedFile P name = true ↔ Named P filename := by
  obtain ⟨ha, rfl⟩ := stored_iff.mp h
  exact allowed_secure_iff ha

/-! ### Two names -/

theorem not_isAscii_toLower {c : Char} (h : isAscii c = false) : isAscii c.toLower = false := by
  have hu : ¬ (c.val ≥ 'A'.val ∧ c.val ≤ 'Z'.val) := fun hu => by
    have hle : c.toNat ≤ 90 := hu.2
    have hge : ¬ c.toNat < 128 := of_decide_eq_false h
    omega
  have hlow : c.toLower = c := dif_neg hu
  rwa [hlow]

/-- Tables without compatibility characters, marks and letters beyond ASCII. -/
def asciiUcd : Ucd where
  decomposition c := [c]
  combiningClass _ := 0
  lowercase c := [c.toLower]
  finalSigma _ _ := false
  decomposition_ascii _ _ := rfl
  combiningClass_ascii _ _ := rfl
  lowercase_ascii _ _ := rfl
  lowercase_other c h := ⟨c.toLower, List.mem_singleton_self _, Or.inr (not_isAscii_toLower h)⟩

def posix : Platform where
  ucd := asciiUcd
  seps := ['/']
  seps_slash _ h := Or.inl (List.mem_singleton.mp h)

/-- A name with a directory and a blank in it. -/
theorem stored_allowed_iff_csv :
    allowedFile posix ['u', 'p', '_', 'm', 'y', '_', 'd', '.', 'C', 'S', 'V'] = true ↔
      Named posix ['u', 'p', '/', 'm', 'y', ' ', 'd', '.', 'C', 'S', 'V'] :=
  stored_allowed_iff posix _ _ (by decide +kernel)

/-- `.txt` is stored as `txt`. -/
theorem dot_txt_stored :
    ¬ ∀ filename name, uploadFile posix ⟨true, some filename⟩ = .stored name → allowedFile posix name = true := by
  intro h
  have hname := h ['.', 't', 'x', 't'] ['t', 'x', 't'] (by decide +kernel)
  exact absurd hname (by decide +kernel)

end FileServer
end Netacademia
