/-
# Statistics of XML files

`python-beginner/2.ora/xmlparse.py`: for each file of the directory with `.xml` in
its name, the number of `ARTIST` elements and the mean of the `PRICE` elements two
levels below the root, written to `xmlexport.xml` in the same directory.

`CalcMean` divides by the number of prices, so the script ends with a
ZeroDivisionError where a file has none; and the file it writes is such a file,
among those that the next run reads.

* `exported_eq_some_iff`: what is exported, and when.
* `statistics`: a run does what it should exactly where every file has a price, and
  no directory can be read twice.
-/
import Mathlib.Algebra.BigOperators.Group.List.Basic
import Mathlib.Algebra.Field.Basic
import Mathlib.Algebra.Field.Rat
import Mathlib.Data.Nat.Cast.Basic
import Netacademia.Lib.Loop
import Netacademia.Lib.Text
import Netacademia.Lib.Xml

namespace Netacademia
namespace XmlStats

open Lib

def DOT_XML : List Char := ['.', 'x', 'm', 'l']

def PRICE : List Char := ['P', 'R', 'I', 'C', 'E']

def ARTIST : List Char := ['A', 'R', 'T', 'I', 'S', 'T']

def XML_STAT_FOR_FILES : List Char :=
  ['X', 'm', 'l', 'S', 't', 'a', 't', 'F', 'o', 'r', 'F', 'i', 'l', 'e', 's']

def XML_FILE : List Char := ['X', 'm', 'l', 'F', 'i', 'l', 'e']

def FILENAME : List Char := ['f', 'i', 'l', 'e', 'n', 'a', 'm', 'e']

def NUMOFARTISTS : List Char := ['n', 'u', 'm', 'o', 'f', 'a', 'r', 't', 'i', 's', 't', 's']

def MEANOFPRICES : List Char := ['m', 'e', 'a', 'n', 'o', 'f', 'p', 'r', 'i', 'c', 'e', 's']

/-- `"xmlexport.xml"` -/
def XMLEXPORT : List Char := ['x', 'm', 'l', 'e', 'x', 'p', 'o', 'r', 't', '.', 'x', 'm', 'l']

/-! ### The directory -/

/-- The name of a file and its text. -/
abbrev File := List Char × List Char

/-- A directory, in the order in which `os.listdir` gives it. -/
structure Dir where
  files : List File
  nodup : (files.map Prod.fst).Nodup

/-- `open(name, 'w')`, `write(text)` -/
def Dir.write (d : Dir) (name text : List Char) : Dir where
  files := d.files.filter (fun f => f.1 != name) ++ [(name, text)]
  nodup := by
    rw [List.map_append, List.map_singleton]
    refine List.nodup_append.mpr ⟨d.nodup.sublist (List.filter_sublist.map _), List.pairwise_singleton _ _, ?_⟩
    rintro n hn _ hm rfl
    obtain ⟨f, hf, rfl⟩ := List.mem_map.mp hn
    have hne := (List.mem_filter.mp hf).2
    rw [List.mem_singleton.mp hm, bne_self_eq_false] at hne
    cases hne

/-- lxml, and the conversions of floats, which are exact here. -/
structure Platform where
  /-- The root of `etree.parse`; nothing for a XMLSyntaxError. -/
  parse : List Char → Option Xml
  /-- `etree.tostring(root, pretty_print=True).decode('ascii')` -/
  tostring : Xml → List Char
  /-- Whether `etree.Element` takes the string as a value, a ValueError if not. -/
  attribOk : List Char → Bool
  /-- `float(text)`; nothing for a ValueError. -/
  float : List Char → Option ℚ
  str : ℚ → List Char

/-- `GetXmlFiles`, each file with its text. -/
def getXmlFiles (d : Dir) : List File := d.files.filter fun f => occurs DOT_XML f.1

/-- `path + "/" + files` -/
def path (name : List Char) : List Char := '.' :: '/' :: name

/-! ### The script -/

/-- `stat`: the texts of the `ARTIST` elements, and the path. -/
structure Stat where
  artists : List (Option (List Char))
  xmlName : List Char

section Script

variable (P : Platform)

/-- `float(content.text)`; `None` is a TypeError. -/
def price (content : Xml) : Option ℚ := content.text.bind P.float

/-- The body of the inner loop. -/
def readContent (st : Stat × List ℚ) (content : Xml) : Option (Stat × List ℚ) := do
  let prices ← if content.tag = some PRICE then (price P content).map fun p => st.2 ++ [p] else some st.2
  let artists := if content.tag = some ARTIST then st.1.artists ++ [content.text] else st.1.artists
  return ({ st.1 with artists }, prices)

def investigateXmlFiles (xmlFile source : List Char) : Option (Stat × List ℚ) := do
  let root ← P.parse source
  root.children.foldlM (fun st cd => cd.children.foldlM (readContent P) st) (⟨[], xmlFile⟩, [])

/-- `CalcMean`; nothing for a ZeroDivisionError. -/
def calcMean (list : List ℚ) : Option ℚ :=
  let result := list.foldl (· + ·) 0
  if list.length = 0 then none else some (result / list.length)

/-- The element of a file, its attributes in the order of the source; lxml may write them sorted by
name, as in `xmlexport.xml`. -/
def exportElement (result : Stat × List ℚ) : Option Xml := do
  let mean ← calcMean result.2
  if P.attribOk result.1.xmlName then
    some (.element XML_FILE
      [(FILENAME, result.1.xmlName), (NUMOFARTISTS, decimal result.1.artists.length), (MEANOFPRICES, P.str mean)]
      none [])
  else none

/-- The tree that `ExportStatToXml` writes. -/
def exportStatToXml (stat : List (Stat × List ℚ)) : Option Xml :=
  (stat.mapM (exportElement P)).map (Xml.element XML_STAT_FOR_FILES [] none)

/-- What a run exports; nothing where it ends with an exception. -/
def exported (d : Dir) : Option Xml := do
  let xmlStats ← (getXmlFiles d).mapM fun f => investigateXmlFiles P (path f.1) f.2
  exportStatToXml P xmlStats

/-- A run of the script; an exception leaves the directory as it is. -/
def run (d : Dir) : Option Dir := (exported P d).map fun t => d.write XMLEXPORT (P.tostring t)

/-! ### What it should do -/

/-- A file of well-formed XML whose prices are numbers. -/
def WellFormed (f : File) : Prop :=
  ∃ root, P.parse f.2 = some root ∧ ∀ c ∈ root.grandchildren, c.tag = some PRICE → (price P c).isSome

/-- The mean of some numbers. -/
def IsMean (qs : List ℚ) (mean : ℚ) : Prop := qs ≠ [] ∧ mean * qs.length = qs.sum

/-- The element has the statistics of the file. -/
def Describes (f : File) (e : Xml) : Prop :=
  ∃ root qs mean, P.parse f.2 = some root ∧
    (Xml.named PRICE root.grandchildren).map (price P) = qs.map some ∧ IsMean qs mean ∧
    e = .element XML_FILE
      [(FILENAME, path f.1), (NUMOFARTISTS, decimal (Xml.named ARTIST root.grandchildren).length),
        (MEANOFPRICES, P.str mean)] none []

/-- A run completes, and `xmlexport.xml`, the only file it touches, has one element
for each of the files, with its statistics. -/
def Right (d : Dir) : Prop :=
  ∃ d' es, run P d = some d' ∧
    (XMLEXPORT, P.tostring (.element XML_STAT_FOR_FILES [] none es)) ∈ d'.files ∧
    (∀ f : File, f.1 ≠ XMLEXPORT → (f ∈ d'.files ↔ f ∈ d.files)) ∧ List.Forall₂ (Describes P) (getXmlFiles d) es

/-- A second run completes, in whatever order it finds the files, and has the same
statistics for the files that the first one did not write. -/
def Repeatable (d : Dir) : Prop :=
  ∃ d' d₂ es es₂, run P d = some d' ∧ d₂.files.Perm d'.files ∧
    exported P d = some (.element XML_STAT_FOR_FILES [] none es) ∧
    exported P d₂ = some (.element XML_STAT_FOR_FILES [] none es₂) ∧
    ∀ e ∈ es, e.attrib.lookup FILENAME ≠ some (path XMLEXPORT) → e ∈ es₂

/-- A file with a price, and a name that can be the value of an attribute. -/
def Priced (f : File) : Prop :=
  P.attribOk (path f.1) = true ∧ ∃ root, P.parse f.2 = some root ∧ ∃ c ∈ root.grandchildren, c.tag = some PRICE

end Script

section Script

variable (P : Platform)

/-- What the inner loop does with a content. -/
theorem readContent_price (st : Stat × List ℚ) {c : Xml} (h : c.tag = some PRICE) :
    readContent P st c = (price P c).map fun p => (st.1, st.2 ++ [p]) := by
  have hne : ¬ some PRICE = some ARTIST := by decide
  rw [readContent, if_pos h, h, if_neg hne]
  cases price P c <;> rfl

theorem readContent_artist (st : Stat × List ℚ) {c : Xml} (h : c.tag = some ARTIST) :
    readContent P st c = some ({ st.1 with artists := st.1.artists ++ [c.text] }, st.2) := by
  have hne : ¬ some ARTIST = some PRICE := by decide
  rw [readContent, h, if_neg hne, if_pos rfl]
  rfl

theorem readContent_other (st : Stat × List ℚ) {c : Xml} (hp : c.tag ≠ some PRICE) (ha : c.tag ≠ some ARTIST) :
    readContent P st c = some st := by
  rw [readContent, if_neg hp, if_neg ha]
  rfl

/-- The inner loop appends the prices and the artists. -/
theorem foldlM_readContent (cs : List Xml) (st : Stat × List ℚ) :
    cs.foldlM (readContent P) st = ((Xml.named PRICE cs).mapM (price P)).map fun qs =>
      ({ st.1 with artists := st.1.artists ++ (Xml.named ARTIST cs).map Xml.text }, st.2 ++ qs) := by
  induction cs generalizing st with
  | nil => simp [Xml.named]
  | cons c cs ih =>
    rw [List.foldlM_cons]
    by_cases hp : c.tag = some PRICE
    · have hprices : Xml.named PRICE (c :: cs) = c :: Xml.named PRICE cs := by simp [Xml.named, hp]
      have hartists : Xml.named ARTIST (c :: cs) = Xml.named ARTIST cs := by
        have hne : (PRICE == ARTIST) = false := by decide
        simp [Xml.named, hp, hne]
      rw [readContent_price P st hp, hprices, hartists, List.mapM_cons]
      cases price P c with
      | none => rfl
      | some p =>
        rw [Option.map_some, Option.bind_eq_bind, Option.bind_some, ih]
        cases (Xml.named PRICE cs).mapM (price P) <;> simp
    · have hprices : Xml.named PRICE (c :: cs) = Xml.named PRICE cs := by simp [Xml.named, hp]
      rw [hprices]
      by_cases ha : c.tag = some ARTIST
      · have hartists : Xml.named ARTIST (c :: cs) = c :: Xml.named ARTIST cs := by simp [Xml.named, ha]
        rw [readContent_artist P st ha, hartists, Option.bind_eq_bind, Option.bind_some, ih]
        simp
      · have hartists : Xml.named ARTIST (c :: cs) = Xml.named ARTIST cs := by simp [Xml.named, ha]
        rw [readContent_other P st hp ha, hartists, Option.bind_eq_bind, Option.bind_some, ih]

/-! ### What is exported -/

/-- `CalcMean` is the mean. -/
theorem calcMean_eq_some_iff (qs : List ℚ) (mean : ℚ) : calcMean qs = some mean ↔ IsMean qs mean := by
  rw [calcMean, ← List.sum_eq_foldl, IsMean]
  by_cases h0 : qs = []
  · simp [h0]
  · have hlen : qs.length ≠ 0 := fun h => h0 (List.length_eq_zero_iff.mp h)
    have hcast : (qs.length : ℚ) ≠ 0 := Nat.cast_ne_zero.mpr hlen
    rw [if_neg hlen, Option.some.injEq, and_iff_right h0, div_eq_iff hcast, eq_comm]

/-- The loops together: the prices and the texts of the artists. -/
theorem investigateXmlFiles_eq (xmlFile source : List Char) :
    investigateXmlFiles P xmlFile source = (P.parse source).bind fun root =>
      ((Xml.named PRICE root.grandchildren).mapM (price P)).map fun qs =>
        (⟨(Xml.named ARTIST root.grandchildren).map Xml.text, xmlFile⟩, qs) := by
  have hroot : ∀ root : Xml, root.children.foldlM (fun st cd => cd.children.foldlM (readContent P) st)
      (⟨[], xmlFile⟩, []) = ((Xml.named PRICE root.grandchildren).mapM (price P)).map fun qs =>
        (⟨(Xml.named ARTIST root.grandchildren).map Xml.text, xmlFile⟩, qs) := by
    intro root
    rw [Xml.foldlM_grandchildren, foldlM_readContent]
    rfl
  exact congrArg _ (funext hroot)

theorem exportElement_eq_some_iff (st : Stat × List ℚ) (e : Xml) :
    exportElement P st = some e ↔ P.attribOk st.1.xmlName = true ∧ ∃ mean, IsMean st.2 mean ∧
      e = .element XML_FILE
        [(FILENAME, st.1.xmlName), (NUMOFARTISTS, decimal st.1.artists.length), (MEANOFPRICES, P.str mean)]
        none [] := by
  simp only [exportElement, Option.bind_eq_bind, Option.bind_eq_some_iff, calcMean_eq_some_iff,
    Option.ite_none_right_eq_some, Option.some.injEq]
  constructor
  · rintro ⟨mean, hmean, hok, rfl⟩
    exact ⟨hok, mean, hmean, rfl⟩
  · rintro ⟨hok, mean, hmean, rfl⟩
    exact ⟨mean, hmean, hok, rfl⟩

/-- The element of a file, read and exported. -/
theorem export_file_iff (f : File) (e : Xml) :
    (∃ st, investigateXmlFiles P (path f.1) f.2 = some st ∧ exportElement P st = some e) ↔
      P.attribOk (path f.1) = true ∧ Describes P f e := by
  simp only [investigateXmlFiles_eq, Option.bind_eq_some_iff, Option.map_eq_some_iff, mapM_eq_some_iff_map,
    exportElement_eq_some_iff]
  constructor
  · rintro ⟨_, ⟨root, hroot, qs, hqs, rfl⟩, hok, mean, hmean, rfl⟩
    refine ⟨hok, root, qs, mean, hroot, hqs, hmean, ?_⟩
    rw [List.length_map]
  · rintro ⟨hok, root, qs, mean, hroot, hqs, hmean, rfl⟩
    refine ⟨_, ⟨root, hroot, qs, hqs, rfl⟩, hok, mean, hmean, ?_⟩
    rw [List.length_map]

/-- **What is exported.** There is an export if and only if every name can be the value
of an attribute and every file has statistics, and it is these. -/
theorem exported_eq_some_iff (d : Dir) (t : Xml) :
    exported P d = some t ↔ ∃ es, t = .element XML_STAT_FOR_FILES [] none es ∧
      List.Forall₂ (fun f e => P.attribOk (path f.1) = true ∧ Describes P f e) (getXmlFiles d) es := by
  have hfiles : ∀ (fs : List File) (es : List Xml),
      (∃ sts, List.Forall₂ (fun f st => investigateXmlFiles P (path f.1) f.2 = some st) fs sts ∧
        List.Forall₂ (fun st e => exportElement P st = some e) sts es) ↔
      List.Forall₂ (fun f e => P.attribOk (path f.1) = true ∧ Describes P f e) fs es := by
    intro fs
    induction fs with
    | nil => simp
    | cons f fs ih =>
      intro es
      constructor
      · rintro ⟨_, _ | ⟨hst, hsts⟩, _ | ⟨he, hes⟩⟩
        exact .cons ((export_file_iff P f _).mp ⟨_, hst, he⟩) ((ih _).mp ⟨_, hsts, hes⟩)
      · rintro (_ | ⟨hf, hfs⟩)
        obtain ⟨st, hst, he⟩ := (export_file_iff P f _).mpr hf
        obtain ⟨sts, hsts, hes⟩ := (ih _).mpr hfs
        exact ⟨st :: sts, .cons hst hsts, .cons he hes⟩
  simp only [exported, exportStatToXml, Option.bind_eq_bind, Option.bind_eq_some_iff, Option.map_eq_some_iff,
    mapM_eq_some_iff, ← hfiles]
  constructor
  · rintro ⟨sts, hsts, es, hes, rfl⟩
    exact ⟨es, rfl, sts, hsts, hes⟩
  · rintro ⟨es, rfl, sts, hsts, hes⟩
    exact ⟨sts, hsts, es, hes, rfl⟩

/-! ### When a file has statistics -/

/-- A file with statistics has a price. -/
theorem priced_of_describes {f : File} {e : Xml} (hok : P.attribOk (path f.1) = true) (h : Describes P f e) :
    Priced P f := by
  obtain ⟨root, qs, mean, hroot, hqs, ⟨hne, -⟩, -⟩ := h
  have hnamed : Xml.named PRICE root.grandchildren ≠ [] := by
    rintro hnil
    rw [hnil, List.map_nil] at hqs
    exact hne (List.map_eq_nil_iff.mp hqs.symm)
  obtain ⟨c, hc⟩ := List.exists_mem_of_ne_nil _ hnamed
  obtain ⟨hmem, htag⟩ := List.mem_filter.mp hc
  exact ⟨hok, root, hroot, c, hmem, beq_iff_eq.mp htag⟩

/-- A file whose prices are numbers has statistics if it has a price. -/
theorem describes_of_priced {f : File} (hf : WellFormed P f) (h : Priced P f) : ∃ e, Describes P f e := by
  obtain ⟨root, hroot, hnum⟩ := hf
  obtain ⟨-, root', hroot', c, hc, htag⟩ := h
  obtain rfl := Option.some.inj (hroot.symm.trans hroot')
  have hall : ∀ x ∈ Xml.named PRICE root.grandchildren, price P x = some ((price P x).getD 0) := by
    intro x hx
    obtain ⟨hmem, hx⟩ := List.mem_filter.mp hx
    obtain ⟨q, hq⟩ := Option.isSome_iff_exists.mp (hnum x hmem (beq_iff_eq.mp hx))
    rw [hq, Option.getD_some]
  set qs := (Xml.named PRICE root.grandchildren).map fun x => (price P x).getD 0 with hqs
  have hmap : (Xml.named PRICE root.grandchildren).map (price P) = qs.map some := by
    rw [hqs, List.map_map]
    exact List.map_congr_left hall
  have hne : qs ≠ [] := by
    have hmem : c ∈ Xml.named PRICE root.grandchildren := List.mem_filter.mpr ⟨hc, beq_iff_eq.mpr htag⟩
    exact List.ne_nil_of_mem (List.mem_map_of_mem hmem)
  have hlen : (qs.length : ℚ) ≠ 0 := Nat.cast_ne_zero.mpr fun h => hne (List.length_eq_zero_iff.mp h)
  exact ⟨_, root, qs, qs.sum / qs.length, hroot, hmap, ⟨hne, div_mul_cancel₀ _ hlen⟩, rfl⟩

/-! ### One run -/

theorem mem_write {d : Dir} {name text : List Char} {f : File} :
    f ∈ (d.write name text).files ↔ f ∈ d.files ∧ f.1 ≠ name ∨ f = (name, text) := by
  rw [Dir.write, List.mem_append, List.mem_filter, List.mem_singleton, bne_iff_ne]

/-- A run completes where every file has a price. -/
theorem priced_of_exported {d : Dir} {t : Xml} (h : exported P d = some t) :
    ∀ f ∈ getXmlFiles d, Priced P f := by
  intro f hf
  obtain ⟨es, -, hes⟩ := (exported_eq_some_iff P d t).mp h
  obtain ⟨e, hok, hdesc⟩ := (exists_forall₂_iff _).mp ⟨es, hes⟩ f hf
  exact priced_of_describes P hok hdesc

/-- A run does what it should where every file has a price. -/
theorem right_iff (d : Dir) (hd : ∀ f ∈ getXmlFiles d, WellFormed P f) :
    Right P d ↔ ∀ f ∈ getXmlFiles d, Priced P f := by
  constructor
  · rintro ⟨d', es, hrun, -⟩
    obtain ⟨t, ht, -⟩ := Option.map_eq_some_iff.mp hrun
    exact priced_of_exported P ht
  · intro h
    obtain ⟨es, hes⟩ : ∃ es, List.Forall₂ (fun f e => P.attribOk (path f.1) = true ∧ Describes P f e)
        (getXmlFiles d) es := by
      refine (exists_forall₂_iff _).mpr fun f hf => ?_
      obtain ⟨e, he⟩ := describes_of_priced P (hd f hf) (h f hf)
      exact ⟨e, (h f hf).1, he⟩
    have ht := (exported_eq_some_iff P d _).mpr ⟨es, rfl, hes⟩
    refine ⟨_, es, congrArg _ ht, mem_write.mpr (Or.inr rfl), fun f hf => ?_, hes.imp fun _ _ he => he.2⟩
    -- another file is as it was
    have hne : f ≠ (XMLEXPORT, P.tostring (.element XML_STAT_FOR_FILES [] none es)) :=
      fun he => hf (congrArg Prod.fst he)
    rw [mem_write, or_iff_left hne, and_iff_left hf]

/-! ### The next run -/

/-- The export has no prices. -/
theorem grandchildren_exported {d : Dir} {t : Xml} (h : exported P d = some t) : t.grandchildren = [] := by
  obtain ⟨es, rfl, hes⟩ := (exported_eq_some_iff P d t).mp h
  refine List.flatMap_eq_nil_iff.mpr fun e he => ?_
  have hflip : List.Forall₂ (fun e f => P.attribOk (path f.1) = true ∧ Describes P f e) es (getXmlFiles d) :=
    hes.flip
  obtain ⟨f, -, root, qs, mean, -, -, -, rfl⟩ := (exists_forall₂_iff _).mp ⟨_, hflip⟩ e he
  rfl

/-- The next run divides by zero on the file that the first one wrote. -/
theorem not_repeatable (d : Dir)
    (hback : ∀ t, exported P d = some t → ∃ t', P.parse (P.tostring t) = some t' ∧ t'.bare = t.bare) :
    ¬ Repeatable P d := by
  rintro ⟨d', d₂, es, es₂, hrun, hperm, -, hexp₂, -⟩
  obtain ⟨t, ht, rfl⟩ := Option.map_eq_some_iff.mp hrun
  obtain ⟨t', hparse, hbare⟩ := hback t ht
  have hmem : (XMLEXPORT, P.tostring t) ∈ getXmlFiles d₂ := by
    have hname : occurs DOT_XML XMLEXPORT = true := by decide
    exact List.mem_filter.mpr ⟨hperm.mem_iff.mpr (mem_write.mpr (Or.inr rfl)), hname⟩
  obtain ⟨-, root, hroot, c, hc, -⟩ := priced_of_exported P hexp₂ _ hmem
  obtain rfl := Option.some.inj (hparse.symm.trans hroot)
  rw [Xml.grandchildren_eq_nil hbare (grandchildren_exported P ht)] at hc
  exact List.not_mem_nil hc

/-- **What the script does.** In a directory of well-formed files with numeric prices a
run completes with the right statistics if and only if every file has a price (and
a name that can be the value of an attribute), and no directory can be read twice.
lxml reads its own output back, up to the texts. -/
theorem statistics (d : Dir) (hd : ∀ f ∈ getXmlFiles d, WellFormed P f)
    (hback : ∀ t, exported P d = some t → ∃ t', P.parse (P.tostring t) = some t' ∧ t'.bare = t.bare) :
    (Right P d ↔ ∀ f ∈ getXmlFiles d, Priced P f) ∧ ¬ Repeatable P d :=
  ⟨right_iff P d hd, not_repeatable P d hback⟩

end Script

/-! ### A directory with one CD -/

def quote : Char := Char.ofNat 34

def newline : Char := Char.ofNat 10

def startTag (name : List Char) (attrib : List (List Char × List Char)) : List Char :=
  '<' :: name ++ attrib.flatMap fun a => ' ' :: a.1 ++ '=' :: quote :: a.2 ++ [quote]

def endTag (name : List Char) : List Char := '<' :: '/' :: name ++ ['>']

/-- A root with children that have neither texts nor children, pretty-printed. -/
def pretty : Xml → List Char
  | .element name attrib _ children =>
    startTag name attrib ++ ['>', newline] ++
      children.flatMap (fun c => [' ', ' '] ++ startTag (c.tag.getD []) c.attrib ++ ['/', '>', newline]) ++
      endTag name ++ [newline]
  | .other => []

/-- An element with an inner text. -/
def tagged (name inner : List Char) : List Char := startTag name [] ++ '>' :: inner ++ endTag name

def CATALOG : List Char := ['C', 'A', 'T', 'A', 'L', 'O', 'G']

def CD : List Char := ['C', 'D']

def dylan : List Char := ['B', 'o', 'b', ' ', 'D', 'y', 'l', 'a', 'n']

def dylanPrice : List Char := ['1', '0', '.', '9', '0']

/-- `"a.xml"` -/
def aXml : List Char := ['a', '.', 'x', 'm', 'l']

/-- A catalogue with one CD, as a tree and as a text. -/
def catalog : Xml :=
  .element CATALOG [] none
    [.element CD [] none [.element ARTIST [] (some dylan) [], .element PRICE [] (some dylanPrice) []]]

def catalogText : List Char := tagged CATALOG (tagged CD (tagged ARTIST dylan ++ tagged PRICE dylanPrice))

/-- Its statistics, with what is read back as the text of the root. -/
def catalogStat (text : Option (List Char)) : Xml :=
  .element XML_STAT_FOR_FILES [] text
    [.element XML_FILE [(FILENAME, path aXml), (NUMOFARTISTS, ['1']), (MEANOFPRICES, ['1', '0', '.', '9'])]
      none []]

/-- lxml and floats on these texts. -/
def sample : Platform where
  parse text :=
    if text = catalogText then some catalog
    else if text = pretty (catalogStat none) then some (catalogStat (some [newline, ' ', ' ']))
    else none
  tostring := pretty
  attribOk text := text.all (32 ≤ ·.toNat)
  float text := if text = dylanPrice then some (109 / 10) else none
  str q := decimal (q.num.toNat / q.den) ++ '.' :: decimal (q.num.toNat * 10 / q.den % 10)

def sampleDir : Dir := ⟨[(aXml, catalogText)], by decide⟩

/-- What a run exports for the catalogue. -/
theorem exported_sample : exported sample sampleDir = some (catalogStat none) := by
  have hfiles : getXmlFiles sampleDir = [(aXml, catalogText)] := by decide
  have hfile : investigateXmlFiles sample (path aXml) catalogText =
      some (⟨[some dylan], path aXml⟩, [109 / 10]) := rfl
  have hmean : calcMean [109 / 10] = some (109 / 10) := by decide +kernel
  have hstr : sample.str (109 / 10) = ['1', '0', '.', '9'] := by decide +kernel
  have helement : exportElement sample (⟨[some dylan], path aXml⟩, [109 / 10]) =
      some (.element XML_FILE [(FILENAME, path aXml), (NUMOFARTISTS, ['1']),
        (MEANOFPRICES, ['1', '0', '.', '9'])] none []) := by
    rw [exportElement, hmean, ← hstr]
    rfl
  have hexport : exportStatToXml sample [(⟨[some dylan], path aXml⟩, [109 / 10])] =
      some (catalogStat none) := by
    rw [exportStatToXml, List.mapM_cons, helement]
    rfl
  have hstats : (getXmlFiles sampleDir).mapM (fun f => investigateXmlFiles sample (path f.1) f.2) =
      some [(⟨[some dylan], path aXml⟩, [109 / 10])] := by
    rw [hfiles, List.mapM_cons, hfile]
    rfl
  rw [exported, hstats]
  exact hexport

theorem wellFormed_sample : ∀ f ∈ getXmlFiles sampleDir, WellFormed sample f := by
  have hfiles : getXmlFiles sampleDir = [(aXml, catalogText)] := by decide
  intro f hf
  rw [hfiles] at hf
  obtain rfl := List.mem_singleton.mp hf
  have hcontents : catalog.grandchildren =
      [.element ARTIST [] (some dylan) [], .element PRICE [] (some dylanPrice) []] := rfl
  refine ⟨catalog, rfl, fun c hc htag => ?_⟩
  rw [hcontents] at hc
  rcases List.mem_pair.mp hc with rfl | rfl
  · exact absurd htag (by decide)
  · rfl

theorem readBack_sample (t : Xml) (h : exported sample sampleDir = some t) :
    ∃ t', sample.parse (sample.tostring t) = some t' ∧ t'.bare = t.bare := by
  obtain rfl := Option.some.inj (exported_sample.symm.trans h)
  exact ⟨catalogStat (some [newline, ' ', ' ']), rfl, rfl⟩

/-- The theorem on the catalogue. -/
theorem statistics_sample :
    (Right sample sampleDir ↔ ∀ f ∈ getXmlFiles sampleDir, Priced sample f) ∧ ¬ Repeatable sample sampleDir :=
  statistics sample sampleDir wellFormed_sample readBack_sample

/-- The catalogue is read once, and not a second time. -/
theorem catalog_not_repeatable :
    ¬ ∀ d, (∀ f ∈ getXmlFiles d, WellFormed sample f) → Right sample d ∧ Repeatable sample d := by
  intro h
  exact not_repeatable sample sampleDir readBack_sample (h sampleDir wellFormed_sample).2

end XmlStats
end Netacademia
