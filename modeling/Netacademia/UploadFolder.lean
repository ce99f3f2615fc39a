/-
# The folder of the uploads

What `upload_file` of `python-beginner/4.ora/filehttpserver.py` does to the files of
the server, and `PutCsv` of csvclient.py, which uploads a file under its path with
`asd` before it.

* `uploads_stay`: whatever is uploaded, only files directly in `UPLOAD_FOLDER` change,
  under names without separators that do not begin with a dot, and each holds the last
  upload stored under its name.
* `upload_again`: under the name that the server answers with, a file is stored again in
  the same place, unless that name is not allowed any more.
* `putCsv_stored`: what `PutCsv` uploads is stored under a name that is allowed and
  begins with `asd`.
-/
import Netacademia.FileServer

namespace Netacademia
namespace UploadFolder

open Lib FileServer

def UPLOAD_FOLDER : List Char :=
  "/home/nolex/git/netacademia/python-beginner/4.ora/upload".toList

/-- `os.path.join` of two paths. -/
def pathJoin (a b : List Char) : List Char :=
  if b.head? = some '/' then b else if a = [] ∨ a.getLast? = some '/' then a ++ b else a ++ '/' :: b

/-- The files of the server, by their paths. -/
abbrev Files := List Char → Option (List UInt8)

def save (files : Files) (path : List Char) (content : List UInt8) : Files :=
  fun p => if p = path then some content else files p

/-- A request, and the content of its file. -/
structure Upload where
  request : Request
  content : List UInt8

section Names

variable (P : Platform)

/-- Where an upload is stored. -/
def target (u : Upload) : Option (List Char) :=
  match uploadFile P u.request with
  | .stored filename => some (pathJoin UPLOAD_FOLDER filename)
  | _ => none

def serve (files : Files) (u : Upload) : Files :=
  match target P u with
  | some path => save files path u.content
  | none => files

/-- A file name that is not empty and names nothing but a file of its folder. -/
structure SafeName (filename : List Char) : Prop where
  ne_nil : filename ≠ []
  plain : ∀ c ∈ filename, isPlain c = true
  head : ∀ c, filename.head? = some c → isDotOrUnderscore c = false

/-! ### What `secure_filename` leaves -/

theorem plain_secureFilename (filename : List Char) : ∀ c ∈ secureFilename P filename, isPlain c = true := by
  intro c hc
  unfold secureFilename at hc
  have hmid := (List.rdropWhile_prefix _ _).subset hc
  exact (List.mem_filter.mp ((List.dropWhile_sublist _).subset hmid)).2

theorem head_strip {p : Char → Bool} {cs : List Char} {c : Char}
    (h : ((cs.dropWhile p).rdropWhile p).head? = some c) : p c = false := by
  obtain ⟨rest, hrest⟩ := List.rdropWhile_prefix p (cs.dropWhile p)
  have hhead : (cs.dropWhile p).head? = some c := by
    rw [← hrest, List.head?_append, h]
    rfl
  have hnot := List.head?_dropWhile_not p cs
  rw [hhead] at hnot
  simpa using hnot

/-- A name of plain characters that is stripped is left as it is. -/
theorem secureFilename_of_plain {filename : List Char} (hp : ∀ c ∈ filename, isPlain c = true)
    (hs : (filename.dropWhile isDotOrUnderscore).rdropWhile isDotOrUnderscore = filename) :
    secureFilename P filename = filename := by
  have hchar : ∀ c ∈ filename, isAscii c = true ∧ isSpace c = false ∧ c ≠ '/' ∧ c ≠ '\\' := fun c hc => by
    rcases isPlain_iff.mp (hp c hc) with hn | hd
    · obtain ⟨hspace, -, -, hslash⟩ := untouched hn
      exact ⟨isAscii_of_isNameChar hn, hspace, hslash⟩
    · rw [isDotOrUnderscore, Bool.or_eq_true, beq_iff_eq, beq_iff_eq] at hd
      obtain rfl | rfl := hd <;> decide
  have hfold : (P.ucd.nfkd filename).filter isAscii = filename := by
    rw [P.ucd.filter_nfkd, P.ucd.flatMap_ascii fun c hc => (hchar c hc).1]
  have hslash : unslashed P filename = filename := unslashed_eq P fun c hc => (hchar c hc).2.2
  have hjoin : ['_'].intercalate (split filename) = filename := by
    rw [split, List.splitOnP_eq_singleton fun c hc => (hchar c hc).2.1]
    cases filename with
    | nil => rfl
    | cons c cs => simp [List.intercalate]
  have hfilter : filename.filter isPlain = filename := List.filter_eq_self.mpr hp
  calc secureFilename P filename
      = (((['_'].intercalate (split (unslashed P ((P.ucd.nfkd filename).filter isAscii)))).filter
          isPlain).dropWhile isDotOrUnderscore).rdropWhile isDotOrUnderscore := rfl
    _ = (filename.dropWhile isDotOrUnderscore).rdropWhile isDotOrUnderscore := by
        rw [hfold, hslash, hjoin, hfilter]
    _ = filename := hs

/-- What is stripped already is left as it is. -/
theorem strip_strip (p : Char → Bool) (cs : List Char) :
    (((cs.dropWhile p).rdropWhile p).dropWhile p).rdropWhile p = (cs.dropWhile p).rdropWhile p := by
  have hleft : ((cs.dropWhile p).rdropWhile p).dropWhile p = (cs.dropWhile p).rdropWhile p := by
    generalize hz : (cs.dropWhile p).rdropWhile p = z
    cases z with
    | nil => rfl
    | cons c z =>
      have hc : p c = false := head_strip (by rw [hz]; rfl)
      rw [List.dropWhile_cons_of_neg (by rw [hc]; exact Bool.false_ne_true)]
  rw [hleft, List.rdropWhile_idempotent]

theorem secureFilename_idem (filename : List Char) :
    secureFilename P (secureFilename P filename) = secureFilename P filename :=
  secureFilename_of_plain P (plain_secureFilename P filename) (strip_strip _ _)

/-- A name that was allowed is stored under a safe name. -/
theorem safeName_secureFilename {filename : List Char} (h : allowedFile P filename = true) :
    SafeName (secureFilename P filename) := by
  refine ⟨?_, plain_secureFilename P filename, fun c hc => head_strip hc⟩
  obtain ⟨hdot, hext⟩ := Bool.and_eq_true_iff.mp h
  obtain ⟨hne, hal⟩ := isAlphanum_extension hext
  obtain ⟨y, hs, hplain, -⟩ := secureFilename_append P (stem filename) hal
  rw [← stem_append_extension hdot, strip_append hplain hne hal] at hs
  rw [hs]
  split
  · exact List.append_ne_nil_of_right_ne_nil _ (List.cons_ne_nil _ _)
  · exact hne

/-- The path of a safe name. -/
theorem pathJoin_safe {filename : List Char} (h : SafeName filename) :
    pathJoin UPLOAD_FOLDER filename = UPLOAD_FOLDER ++ '/' :: filename := by
  have habs : filename.head? ≠ some '/' := by
    intro hc
    exact absurd (h.plain '/' (List.mem_of_mem_head? hc)) (by decide)
  have hfolder : ¬ (UPLOAD_FOLDER = [] ∨ UPLOAD_FOLDER.getLast? = some '/') := by decide
  rw [pathJoin, if_neg habs, if_neg hfolder]

theorem target_eq_some {u : Upload} {path : List Char} (h : target P u = some path) :
    ∃ filename, uploadFile P u.request = .stored filename ∧ SafeName filename ∧
      path = UPLOAD_FOLDER ++ '/' :: filename := by
  obtain ⟨⟨post, file⟩, content⟩ := u
  unfold target at h
  split at h
  · next filename hstored =>
    have hsafe : SafeName filename := by
      cases post with
      | false => exact absurd hstored (by simp [uploadFile])
      | true =>
        cases file with
        | none => exact absurd hstored (by simp [uploadFile])
        | some name =>
          obtain ⟨ha, rfl⟩ := stored_iff.mp hstored
          exact safeName_secureFilename P ha
    refine ⟨filename, hstored, hsafe, ?_⟩
    rw [← pathJoin_safe hsafe]
    exact (Option.some.inj h).symm
  · exact absurd h.symm (Option.some_ne_none _)

theorem serve_of_target {files : Files} {u : Upload} {path : List Char} (h : target P u = some path) :
    serve P files u path = some u.content := by
  unfold serve
  rw [h]
  exact if_pos rfl

theorem serve_of_not_target {files : Files} {u : Upload} {path : List Char} (h : target P u ≠ some path) :
    serve P files u path = files path := by
  unfold serve
  cases hp : target P u with
  | none => rfl
  | some p => exact if_neg fun he => h (by rw [hp, he])

/-- **What uploads do to the files.** After any requests a path holds what it held, or it
is a file directly in the folder, under a safe name, and holds the last upload that was
stored there. -/
theorem uploads_stay (files : Files) (us : List Upload) (path : List Char) :
    (us.foldl (serve P) files path = files path ∧ ∀ u ∈ us, target P u ≠ some path) ∨
      ∃ before u after filename, us = before ++ u :: after ∧ uploadFile P u.request = .stored filename ∧
        SafeName filename ∧ path = UPLOAD_FOLDER ++ '/' :: filename ∧
        us.foldl (serve P) files path = some u.content ∧ ∀ v ∈ after, target P v ≠ some path := by
  induction us using List.reverseRecOn with
  | nil => exact .inl ⟨rfl, fun u hu => absurd hu List.not_mem_nil⟩
  | append_singleton us u ih =>
    rw [List.foldl_append, List.foldl_cons, List.foldl_nil]
    by_cases ht : target P u = some path
    · obtain ⟨filename, hstored, hsafe, hpath⟩ := target_eq_some P ht
      exact .inr ⟨us, u, [], filename, rfl, hstored, hsafe, hpath, serve_of_target P ht,
        fun v hv => absurd hv List.not_mem_nil⟩
    · rw [serve_of_not_target P ht]
      have hlast {vs : List Upload} (hvs : ∀ v ∈ vs, target P v ≠ some path) :
          ∀ v ∈ vs ++ [u], target P v ≠ some path := fun v hv =>
        (List.mem_append.mp hv).elim (hvs v) fun hu => List.mem_singleton.mp hu ▸ ht
      obtain ⟨hsame, hnone⟩ | ⟨before, v, after, filename, rfl, hstored, hsafe, hpath, hcontent, hafter⟩ := ih
      · exact .inl ⟨hsame, hlast hnone⟩
      · exact .inr ⟨before, v, after ++ [u], filename, by rw [List.append_assoc, List.cons_append], hstored, hsafe,
          hpath, hcontent, hlast hafter⟩

/-! ### The name that is answered -/

/-- **The name of a stored file can be uploaded again** exactly if the first name had a
character of a name before its extension; then it is stored in the same place. -/
theorem upload_again {filename name : List Char} (h : uploadFile P ⟨true, some filename⟩ = .stored name) :
    (Named P filename → uploadFile P ⟨true, some name⟩ = .stored name) ∧
      (¬ Named P filename → uploadFile P ⟨true, some name⟩ = .page) := by
  obtain ⟨ha, rfl⟩ := stored_iff.mp h
  have hiff := allowed_secure_iff ha
  have hne : secureFilename P filename ≠ [] := (safeName_secureFilename P ha).ne_nil
  refine ⟨fun hn => stored_iff.mpr ⟨hiff.mpr hn, (secureFilename_idem P filename).symm⟩, fun hn => ?_⟩
  rw [uploadFile, if_pos rfl]
  simp only [if_neg hne, if_neg fun hc => hn (hiff.mp hc)]

/-- A name with a blank in it, and `.csv`, which is stored as `csv` and then refused. -/
theorem upload_again_csv :
    uploadFile posix ⟨true, some "my data.csv".toList⟩ = .stored "my_data.csv".toList ∧
      (Named posix "my data.csv".toList →
        uploadFile posix ⟨true, some "my_data.csv".toList⟩ = .stored "my_data.csv".toList) ∧
      (¬ Named posix ".csv".toList → uploadFile posix ⟨true, some "csv".toList⟩ = .page) := by
  have h1 : uploadFile posix ⟨true, some "my data.csv".toList⟩ = .stored "my_data.csv".toList := by decide +kernel
  have h2 : uploadFile posix ⟨true, some ".csv".toList⟩ = .stored "csv".toList := by decide +kernel
  exact ⟨h1, (upload_again posix h1).1, (upload_again posix h2).2⟩

/-! ### PutCsv -/

/-- The name that `PutCsv` gives to the file at a path. -/
def putCsvName (filepath : List Char) : List Char := 'a' :: 's' :: 'd' :: filepath

/-- A text that begins with a part of a word has it at the front of its first word. -/
theorem split_prefix {w : List Char} (hne : w ≠ []) (hw : ∀ c ∈ w, isSpace c = false) (cs : List Char) :
    ∃ v ws, split (w ++ cs) = (w ++ v) :: ws := by
  have hparts : ∃ v ws, (w ++ cs).splitOnP isSpace = (w ++ v) :: ws := by
    clear hne
    induction w with
    | nil =>
      obtain ⟨v, ws, hv⟩ := List.exists_cons_of_ne_nil (List.splitOnP_ne_nil isSpace cs)
      exact ⟨v, ws, hv⟩
    | cons c w ih =>
      obtain ⟨v, ws, hv⟩ := ih fun d hd => hw d (List.mem_cons_of_mem c hd)
      refine ⟨v, ws, ?_⟩
      rw [List.cons_append, List.splitOnP_cons_eq_if_modifyHead, hw c List.mem_cons_self, hv]
      rfl
  obtain ⟨v, ws, hv⟩ := hparts
  refine ⟨v, ws.filter (!·.isEmpty), ?_⟩
  rw [split, hv, List.filter_cons_of_pos]
  simp [hne]

/-- The letters, digits and hyphens at the front of a name stay there. -/
theorem secureFilename_prefix {w : List Char} (hne : w ≠ []) (hw : ∀ c ∈ w, isNameChar c = true) (cs : List Char) :
    w <+: secureFilename P (w ++ cs) := by
  have hfold : (P.ucd.nfkd (w ++ cs)).filter isAscii = w ++ folded P cs := by
    rw [P.ucd.filter_nfkd, List.flatMap_append, P.ucd.flatMap_ascii fun c hc => isAscii_of_isNameChar (hw c hc)]
    rfl
  have hslash : unslashed P (w ++ folded P cs) = w ++ unslashed P (folded P cs) := by
    have hid := unslashed_eq P fun c hc => (untouched (hw c hc)).2.2.2
    rw [unslashed, List.map_append]
    exact congrArg (· ++ unslashed P (folded P cs)) hid
  obtain ⟨v, ws, hsplit⟩ := split_prefix hne (fun c hc => (untouched (hw c hc)).1) (unslashed P (folded P cs))
  obtain ⟨t, ht⟩ : ∃ t, ['_'].intercalate ((w ++ v) :: ws) = w ++ t := by
    cases ws with
    | nil => exact ⟨v, by simp [List.intercalate]⟩
    | cons u us => exact ⟨v ++ (['_'] ++ ['_'].intercalate (u :: us)), by
        rw [List.intercalate_cons_of_ne_nil (List.cons_ne_nil u us)]
        simp only [List.append_assoc]⟩
  have hfilter : (w ++ t).filter isPlain = w ++ t.filter isPlain := by
    rw [List.filter_append, List.filter_eq_self.mpr fun c hc => (untouched (hw c hc)).2.1]
  have hpass : secureFilename P (w ++ cs) =
      ((w ++ t.filter isPlain).dropWhile isDotOrUnderscore).rdropWhile isDotOrUnderscore := by
    have hall : (['_'].intercalate (split (unslashed P ((P.ucd.nfkd (w ++ cs)).filter isAscii)))).filter isPlain =
        w ++ t.filter isPlain := by
      rw [hfold, hslash, hsplit, ht, hfilter]
    rw [← hall]
    rfl
  have hstay : ∀ c ∈ w, isDotOrUnderscore c = false := fun c hc => (untouched (hw c hc)).2.2.1
  have hleft : (w ++ t.filter isPlain).dropWhile isDotOrUnderscore = w ++ t.filter isPlain := by
    obtain ⟨c, w', rfl⟩ := List.exists_cons_of_ne_nil hne
    rw [List.cons_append, List.dropWhile_cons_of_neg (by rw [hstay c List.mem_cons_self]; exact Bool.false_ne_true)]
  rw [hpass, hleft, List.rdropWhile, List.reverse_append, List.dropWhile_append]
  split
  · have hback : w.reverse.dropWhile isDotOrUnderscore = w.reverse := by
      obtain ⟨c, w', hc⟩ := List.exists_cons_of_ne_nil (List.reverse_ne_nil_iff.mpr hne)
      have hmem : c ∈ w := List.mem_reverse.mp (hc ▸ List.mem_cons_self)
      rw [hc, List.dropWhile_cons_of_neg (by rw [hstay c hmem]; exact Bool.false_ne_true)]
    rw [hback, List.reverse_reverse]
  · rw [List.reverse_append, List.reverse_reverse]
    exact List.prefix_append ..

/-- **What `PutCsv` uploads** is stored, whatever the path is, under a name that is
allowed and begins with `asd`. -/
theorem putCsv_stored {filepath name : List Char}
    (h : uploadFile P ⟨true, some (putCsvName filepath)⟩ = .stored name) :
    allowedFile P name = true ∧ ['a', 's', 'd'] <+: name := by
  obtain ⟨ha, rfl⟩ := stored_iff.mp h
  have hasd : ['a', 's', 'd'].all isNameChar = true := rfl
  refine ⟨(allowed_secure_iff ha).mpr ?_,
    secureFilename_prefix P (List.cons_ne_nil _ _) (List.all_eq_true.mp hasd) filepath⟩
  -- the first letter is before the last dot
  have hdot := (Bool.and_eq_true_iff.mp ha).1
  have hsplit := stem_append_extension hdot
  refine ⟨'a', ?_, 'a', ?_, rfl⟩
  · cases hstem : stem (putCsvName filepath) with
    | nil =>
      rw [hstem, List.nil_append] at hsplit
      exact absurd (List.cons.inj hsplit).1 (by decide)
    | cons c cs =>
      rw [hstem, List.cons_append] at hsplit
      rw [(List.cons.inj hsplit).1]
      exact List.mem_cons_self
  · rw [P.ucd.decomposition_ascii 'a' rfl]
    exact List.mem_singleton_self 'a'

theorem putCsv_stored_datas : allowedFile posix "asddatas.csv".toList = true ∧ ['a', 's', 'd'] <+: "asddatas.csv".toList :=
  putCsv_stored posix (show uploadFile posix ⟨true, some (putCsvName "datas.csv".toList)⟩ = _ by decide +kernel)

end Names

end UploadFolder
end Netacademia
