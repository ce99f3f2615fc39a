/-
# CSV files

The writer and the reader of Python's csv module, for a dialect that names a
delimiter and a quote character and leaves the rest as it is: the writer quotes a
field that needs it (`QUOTE_MINIMAL`) and doubles the quotes in it, the lines end
with CR LF, and the reader is the automaton of the module, run over the lines of
the file. `reader_writerows` is the round trip for one dialect.
-/
import Mathlib.Data.List.Basic

namespace Lib
namespace Csv

structure Dialect where
  delimiter : Char
  quotechar : Char
  ne : delimiter ≠ quotechar
  delimiter_plain : delimiter ≠ '\r' ∧ delimiter ≠ '\n'
  quotechar_plain : quotechar ≠ '\r' ∧ quotechar ≠ '\n'

variable (d : Dialect)

/-! ### The writer -/

def isNewline (c : Char) : Bool := c == '\r' || c == '\n'

/-- A character that makes its field a quoted one. -/
def special (c : Char) : Bool := c == d.delimiter || c == d.quotechar || isNewline c

/-- A character in a quoted field. -/
def doubled (c : Char) : List Char := if c = d.quotechar then [c, c] else [c]

def writeField (field : List Char) : List Char :=
  if field.any (special d) then d.quotechar :: field.flatMap (doubled d) ++ [d.quotechar] else field

/-- A row; a single empty field is quoted, since an empty line is a row without fields. -/
def writerow (row : List (List Char)) : List Char :=
  (if row = [[]] then [d.quotechar, d.quotechar] else [d.delimiter].intercalate (row.map (writeField d))) ++
    ['\r', '\n']

def writerows (rows : List (List (List Char))) : List Char := rows.flatMap (writerow d)

/-! ### The reader -/

/-- A character ends its line, in a text that goes on with `cs`. -/
def endsLine (c : Char) (cs : List Char) : Bool := c == '\n' || (c == '\r' && cs.head? != some '\n')

/-- The lines of a file opened with `newline=''`, with their ends. -/
def lines : List Char → List (List Char)
  | [] => []
  | c :: cs =>
    if endsLine c cs then [c] :: lines cs
    else
      match lines cs with
      | [] => [[c]]
      | l :: ls => (c :: l) :: ls

inductive ParseState
  | startRecord | startField | inField | inQuotedField | quoteInQuotedField | eatCrnl
  deriving DecidableEq, Repr

structure Reader where
  state : ParseState
  field : List Char
  fields : List (List Char)
  deriving DecidableEq, Repr

def Reader.reset : Reader := ⟨.startRecord, [], []⟩

def Reader.addChar (r : Reader) (c : Char) (state : ParseState) : Reader := ⟨state, r.field ++ [c], r.fields⟩

def Reader.saveField (r : Reader) (state : ParseState) : Reader := ⟨state, [], r.fields ++ [r.field]⟩

/-- A character where a field begins. -/
def startField (r : Reader) (c : Char) : Reader :=
  if isNewline c then r.saveField .eatCrnl
  else if c = d.quotechar then { r with state := .inQuotedField }
  else if c = d.delimiter then r.saveField .startField
  else r.addChar c .inField

/-- A character, or the end of the line; nothing for an error. -/
def process (r : Reader) : Option Char → Option Reader
  | none =>
    match r.state with
    | .startRecord | .inQuotedField => some r
    | .startField | .inField | .quoteInQuotedField => some (r.saveField .startRecord)
    | .eatCrnl => some { r with state := .startRecord }
  | some c =>
    match r.state with
    | .startRecord => some (if isNewline c then { r with state := .eatCrnl } else startField d r c)
    | .startField => some (startField d r c)
    | .inField =>
      some (if isNewline c then r.saveField .eatCrnl
        else if c = d.delimiter then r.saveField .startField
        else r.addChar c .inField)
    | .inQuotedField =>
      some (if c = d.quotechar then { r with state := .quoteInQuotedField } else r.addChar c .inQuotedField)
    | .quoteInQuotedField =>
      some (if c = d.quotechar then r.addChar c .inQuotedField
        else if c = d.delimiter then r.saveField .startField
        else if isNewline c then r.saveField .eatCrnl
        else r.addChar c .inField)
    | .eatCrnl => if isNewline c then some r else none

/-- The row that the end of the file leaves. -/
def Reader.eof (r : Reader) : List (List (List Char)) :=
  if !r.field.isEmpty || r.state == .inQuotedField then [r.fields ++ [r.field]] else []

/-- The rows of the lines: a row ends with the line that leads back to `startRecord`. -/
def readLines : Reader → List (List Char) → Option (List (List (List Char)))
  | r, [] => some r.eof
  | r, l :: ls => do
    let r ← (l.map some ++ [none]).foldlM (process d) r
    if r.state = .startRecord then (readLines .reset ls).map (r.fields :: ·) else readLines r ls

/-- The rows of a file. -/
def reader (text : List Char) : Option (List (List (List Char))) := readLines d .reset (lines text)

/-! ### Reading a text from the left -/

variable {d} {r : Reader} {c : Char} {cs : List Char}

theorem lines_ne_nil (h : cs ≠ []) : lines cs ≠ [] := by
  cases cs with
  | nil => exact absurd rfl h
  | cons c cs =>
    rw [lines]
    split
    · exact List.cons_ne_nil _ _
    · split <;> exact List.cons_ne_nil _ _

/-- A character inside of its line. -/
theorem read_char (h : endsLine c cs = false) (hcs : cs ≠ []) :
    readLines d r (lines (c :: cs)) = (process d r (some c)).bind fun r => readLines d r (lines cs) := by
  obtain ⟨l, ls, hl⟩ := List.exists_cons_of_ne_nil (lines_ne_nil hcs)
  rw [lines, if_neg (by simp [h]), hl]
  simp only [readLines, List.map_cons, List.cons_append, List.foldlM_cons, Option.bind_eq_bind,
    Option.bind_assoc]

/-- A character that ends its line. -/
theorem read_end (h : endsLine c cs = true) :
    readLines d r (lines (c :: cs)) = (process d r (some c)).bind fun r => (process d r none).bind fun r =>
      if r.state = .startRecord then (readLines d .reset (lines cs)).map (r.fields :: ·)
      else readLines d r (lines cs) := by
  rw [lines, if_pos h]
  simp only [readLines, List.map_cons, List.map_nil, List.cons_append, List.nil_append, List.foldlM_cons,
    List.foldlM_nil, Option.bind_eq_bind, Option.bind_assoc, Option.bind_some, Option.pure_def]

/-- A character that is no line end. -/
theorem read_plain (h : isNewline c = false) (hcs : cs ≠ []) :
    readLines d r (lines (c :: cs)) = (process d r (some c)).bind fun r => readLines d r (lines cs) := by
  refine read_char ?_ hcs
  rw [isNewline, Bool.or_eq_false_iff] at h
  rw [endsLine, h.1, h.2]
  rfl

theorem ne_of_isNewline {q : Char} (hq : q ≠ '\r' ∧ q ≠ '\n') : isNewline q = false := by
  simp [isNewline, hq.1, hq.2]

theorem special_eq_false : special d c = false ↔ c ≠ d.delimiter ∧ c ≠ d.quotechar ∧ isNewline c = false := by
  simp [special, and_assoc]

/-! ### Fields -/

section Fields

variable (f : List Char) (fs : List (List Char))

/-- In a quoted field the line ends are characters as others. -/
theorem read_quoted_char (hc : c ≠ d.quotechar) (hcs : cs ≠ []) :
    readLines d ⟨.inQuotedField, f, fs⟩ (lines (c :: cs)) =
      readLines d ⟨.inQuotedField, f ++ [c], fs⟩ (lines cs) := by
  have hp : process d ⟨.inQuotedField, f, fs⟩ (some c) = some ⟨.inQuotedField, f ++ [c], fs⟩ := by
    simp only [process, if_neg hc, Reader.addChar]
  cases he : endsLine c cs with
  | false => rw [read_char he hcs, hp, Option.bind_some]
  | true =>
    rw [read_end he, hp, Option.bind_some]
    rfl

/-- A quote in the text. -/
theorem read_quote (hcs : cs ≠ []) :
    readLines d r (lines (d.quotechar :: cs)) =
      (process d r (some d.quotechar)).bind fun r => readLines d r (lines cs) :=
  read_plain (ne_of_isNewline d.quotechar_plain) hcs

/-- The rest of a quoted field. -/
theorem read_quoted (field : List Char) (hcs : cs ≠ []) :
    readLines d ⟨.inQuotedField, f, fs⟩ (lines (field.flatMap (doubled d) ++ d.quotechar :: cs)) =
      readLines d ⟨.quoteInQuotedField, f ++ field, fs⟩ (lines cs) := by
  have hquote : ∀ f, process d ⟨.inQuotedField, f, fs⟩ (some d.quotechar) =
      some ⟨.quoteInQuotedField, f, fs⟩ := fun f => by
    simp only [process, if_true]
  induction field generalizing f with
  | nil =>
    rw [List.flatMap_nil, List.nil_append, read_quote hcs, hquote, Option.bind_some, List.append_nil]
  | cons c field ih =>
    have hne : field.flatMap (doubled d) ++ d.quotechar :: cs ≠ [] := by simp
    have hstep : readLines d ⟨.inQuotedField, f, fs⟩
        (lines (doubled d c ++ (field.flatMap (doubled d) ++ d.quotechar :: cs))) =
        readLines d ⟨.inQuotedField, f ++ [c], fs⟩ (lines (field.flatMap (doubled d) ++ d.quotechar :: cs)) := by
      by_cases hc : c = d.quotechar
      · -- the first quote might be the end of the field, the second one says that it is not
        subst hc
        have hsecond : process d ⟨.quoteInQuotedField, f, fs⟩ (some d.quotechar) =
            some ⟨.inQuotedField, f ++ [d.quotechar], fs⟩ := by
          simp only [process, if_true, Reader.addChar]
        rw [doubled, if_pos rfl, List.cons_append, List.singleton_append, read_quote (List.cons_ne_nil _ _),
          hquote, Option.bind_some, read_quote hne, hsecond, Option.bind_some]
      · rw [doubled, if_neg hc, List.singleton_append, read_quoted_char f fs hc hne]
    rw [List.flatMap_cons, List.append_assoc, hstep, ih, List.append_assoc, List.singleton_append]

/-- The rest of a field without quotes. -/
theorem read_unquoted {field : List Char} (hf : ∀ c ∈ field, special d c = false) (hcs : cs ≠ []) :
    readLines d ⟨.inField, f, fs⟩ (lines (field ++ cs)) = readLines d ⟨.inField, f ++ field, fs⟩ (lines cs) := by
  induction field generalizing f with
  | nil => rw [List.nil_append, List.append_nil]
  | cons c field ih =>
    have hne : field ++ cs ≠ [] := List.append_ne_nil_of_right_ne_nil _ hcs
    obtain ⟨hd, -, hn⟩ := special_eq_false.mp (hf c List.mem_cons_self)
    have hp : process d ⟨.inField, f, fs⟩ (some c) = some ⟨.inField, f ++ [c], fs⟩ := by
      simp only [process, hn, Bool.false_eq_true, if_false, if_neg hd, Reader.addChar]
    rw [List.cons_append, read_plain hn hne, hp, Option.bind_some,
      ih (f ++ [c]) fun c hc => hf c (List.mem_cons_of_mem _ hc), List.append_assoc, List.singleton_append]

end Fields

/-- Where a field may begin. -/
def Starts (st : ParseState) : Prop := st = .startRecord ∨ st = .startField

theorem process_start {st : ParseState} (hst : Starts st) (fs : List (List Char)) (hn : isNewline c = false) :
    process d ⟨st, [], fs⟩ (some c) = some (startField d ⟨st, [], fs⟩ c) := by
  rcases hst with rfl | rfl
  · simp only [process, hn, Bool.false_eq_true, if_false]
  · rfl

/-- A field that the writer wrote: behind it a delimiter ends the field, and a line
end the row, unless the row is empty as yet. -/
theorem read_field {st : ParseState} (hst : Starts st) (fs : List (List Char)) (field : List Char) :
    ∃ r, (∀ cs, cs ≠ [] → readLines d ⟨st, [], fs⟩ (lines (writeField d field ++ cs)) = readLines d r (lines cs)) ∧
      process d r (some d.delimiter) = some ⟨.startField, [], fs ++ [field]⟩ ∧
      (st = .startField ∨ field ≠ [] → process d r (some '\r') = some ⟨.eatCrnl, [], fs ++ [field]⟩) := by
  have hdn : isNewline d.delimiter = false := ne_of_isNewline d.delimiter_plain
  have hr : isNewline '\r' = true := rfl
  by_cases hq : field.any (special d) = true
  · -- in quotes
    have hopen : process d ⟨st, [], fs⟩ (some d.quotechar) = some ⟨.inQuotedField, [], fs⟩ := by
      rw [process_start hst fs (ne_of_isNewline d.quotechar_plain), startField,
        ne_of_isNewline d.quotechar_plain, if_neg Bool.false_ne_true, if_pos rfl]
    refine ⟨⟨.quoteInQuotedField, field, fs⟩, fun cs hcs => ?_, ?_, fun _ => ?_⟩
    · rw [writeField, if_pos hq, List.cons_append, List.cons_append, List.append_assoc, List.singleton_append,
        read_quote (by simp), hopen, Option.bind_some, read_quoted [] fs field hcs, List.nil_append]
    · simp only [process, if_neg d.ne, if_true, Reader.saveField]
    · simp only [process, if_neg d.quotechar_plain.1.symm, if_neg d.delimiter_plain.1.symm, hr, if_true,
        Reader.saveField]
  · have hplain : ∀ c ∈ field, special d c = false := by simpa using hq
    rw [writeField, if_neg hq]
    cases field with
    | nil =>
      refine ⟨⟨st, [], fs⟩, fun cs _ => rfl, ?_, fun hor => ?_⟩
      · rw [process_start hst fs hdn, startField, hdn, if_neg Bool.false_ne_true, if_neg d.ne, if_pos rfl]
        rfl
      · obtain rfl : st = .startField := hor.resolve_right fun h => h rfl
        simp only [process, startField, hr, if_true, Reader.saveField]
    | cons c field =>
      obtain ⟨hd, hqc, hn⟩ := special_eq_false.mp (hplain c List.mem_cons_self)
      have hfirst : process d ⟨st, [], fs⟩ (some c) = some ⟨.inField, [c], fs⟩ := by
        rw [process_start hst fs hn, startField, hn, if_neg Bool.false_ne_true, if_neg hqc, if_neg hd]
        rfl
      refine ⟨⟨.inField, c :: field, fs⟩, fun cs hcs => ?_, ?_, fun _ => ?_⟩
      · rw [List.cons_append, read_plain hn (List.append_ne_nil_of_right_ne_nil _ hcs), hfirst, Option.bind_some,
          read_unquoted [c] fs (fun c hc => hplain c (List.mem_cons_of_mem _ hc)) hcs, List.singleton_append]
      · simp only [process, hdn, Bool.false_eq_true, if_false, if_true, Reader.saveField]
      · simp only [process, hr, if_true, Reader.saveField]

/-! ### Rows -/

/-- The end of a row. -/
theorem read_crlf {fs : List (List Char)} (h : process d r (some '\r') = some ⟨.eatCrnl, [], fs⟩) :
    readLines d r (lines ('\r' :: '\n' :: cs)) = (readLines d .reset (lines cs)).map (fs :: ·) := by
  rw [read_char rfl (List.cons_ne_nil _ _), h, Option.bind_some, read_end rfl]
  rfl

theorem read_row {st : ParseState} (hst : Starts st) (fs : List (List Char)) {row : List (List Char)}
    (hrow : row ≠ []) (h : st = .startField ∨ row ≠ [[]]) :
    readLines d ⟨st, [], fs⟩
        (lines ([d.delimiter].intercalate (row.map (writeField d)) ++ '\r' :: '\n' :: cs)) =
      (readLines d .reset (lines cs)).map ((fs ++ row) :: ·) := by
  induction row generalizing st fs with
  | nil => exact absurd rfl hrow
  | cons field row ih =>
    obtain ⟨r, hread, hdel, hend⟩ := read_field (d := d) hst fs field
    cases row with
    | nil =>
      have hor : st = .startField ∨ field ≠ [] := h.imp_right fun hne he => hne (by rw [he])
      rw [List.map_cons, List.map_nil, List.intercalate_singleton, hread _ (List.cons_ne_nil _ _),
        read_crlf (hend hor)]
    | cons field' row =>
      rw [List.map_cons, List.map_cons, List.intercalate_cons_cons, ← List.map_cons, List.append_assoc,
        List.append_assoc, hread _ (by simp), List.singleton_append,
        read_plain (ne_of_isNewline d.delimiter_plain) (by simp), hdel, Option.bind_some,
        ih (Or.inr rfl) (fs ++ [field]) (List.cons_ne_nil _ _) (Or.inl rfl), List.append_assoc,
        List.singleton_append]

theorem read_writerow (row : List (List Char)) :
    readLines d .reset (lines (writerow d row ++ cs)) = (readLines d .reset (lines cs)).map (row :: ·) := by
  rw [writerow, List.append_assoc, List.cons_append, List.singleton_append]
  by_cases hrow : row = [[]]
  · have hopen : process d .reset (some d.quotechar) = some ⟨.inQuotedField, [], []⟩ := by
      rw [Reader.reset, process_start (Or.inl rfl) [] (ne_of_isNewline d.quotechar_plain), startField,
        ne_of_isNewline d.quotechar_plain, if_neg Bool.false_ne_true, if_pos rfl]
    have hclose : process d ⟨.quoteInQuotedField, [], []⟩ (some '\r') = some ⟨.eatCrnl, [], [[]]⟩ := by
      simp only [process, if_neg d.quotechar_plain.1.symm, if_neg d.delimiter_plain.1.symm]
      rfl
    have hempty : readLines d ⟨.inQuotedField, [], []⟩ (lines (d.quotechar :: '\r' :: '\n' :: cs)) =
        readLines d ⟨.quoteInQuotedField, [], []⟩ (lines ('\r' :: '\n' :: cs)) :=
      read_quoted [] [] [] (List.cons_ne_nil _ _)
    rw [if_pos hrow, List.cons_append, List.singleton_append, read_quote (List.cons_ne_nil _ _), hopen,
      Option.bind_some, hempty, read_crlf hclose, hrow]
  · rw [if_neg hrow]
    cases row with
    | nil => exact read_crlf rfl
    | cons field row => exact read_row (Or.inl rfl) [] (List.cons_ne_nil _ _) (Or.inr hrow)

/-- **The round trip.** A reader of the dialect reads back what a writer of it wrote. -/
theorem reader_writerows (rows : List (List (List Char))) : reader d (writerows d rows) = some rows := by
  induction rows with
  | nil => rfl
  | cons row rows ih =>
    rw [writerows, List.flatMap_cons, reader, read_writerow]
    exact congrArg (Option.map (row :: ·)) ih

/-! ### Reading with another delimiter -/

/-- A row of fields that need no quotes. -/
theorem writerow_plain {row : List (List Char)} (h : ∀ f ∈ row, ∀ c ∈ f, special d c = false) (hne : row ≠ [[]]) :
    writerow d row = [d.delimiter].intercalate row ++ ['\r', '\n'] := by
  have hf : row.map (writeField d) = row := by
    refine (List.map_congr_left fun f hf => ?_).trans (List.map_id row)
    have hany : ¬ f.any (special d) = true := by simpa using h f hf
    rw [writeField, if_neg hany, id]
  rw [writerow, if_neg hne, hf]

theorem mem_intercalate {x c : Char} {row : List (List Char)} (h : c ∈ [x].intercalate row) :
    c = x ∨ ∃ f ∈ row, c ∈ f := by
  induction row with
  | nil => cases h
  | cons f row ih =>
    cases row with
    | nil =>
      rw [List.intercalate_singleton] at h
      exact Or.inr ⟨f, List.mem_cons_self, h⟩
    | cons g row =>
      rw [List.intercalate_cons_cons, List.mem_append, List.mem_append] at h
      rcases h with (h | h) | h
      · exact Or.inr ⟨f, List.mem_cons_self, h⟩
      · exact Or.inl (List.mem_singleton.mp h)
      · exact (ih h).imp_right fun ⟨f', hf', hc⟩ => ⟨f', List.mem_cons_of_mem _ hf', hc⟩

/-- A reader to which the delimiter and the fields of a writer are plain text reads a
row of two fields or more as one. -/
theorem reader_other {d' : Dialect} (hd : special d' d.delimiter = false) {rows : List (List (List Char))}
    (hlen : ∀ row ∈ rows, 2 ≤ row.length)
    (h : ∀ row ∈ rows, ∀ f ∈ row, ∀ c ∈ f, special d c = false ∧ special d' c = false) :
    reader d' (writerows d rows) = some (rows.map fun row => [[d.delimiter].intercalate row]) := by
  have hrow : ∀ row ∈ rows, writerow d row = writerow d' [[d.delimiter].intercalate row] := by
    intro row hr
    rcases row with _ | ⟨f, _ | ⟨g, row'⟩⟩
    · exact absurd (hlen _ hr) (by decide)
    · exact absurd (hlen _ hr) (by simp)
    have hplain : ∀ c ∈ [d.delimiter].intercalate (f :: g :: row'), special d' c = false := fun c hc => by
      rcases mem_intercalate hc with rfl | ⟨f', hf', hc⟩
      · exact hd
      · exact (h _ hr f' hf' c hc).2
    have hne : [[d.delimiter].intercalate (f :: g :: row')] ≠ [[]] := by simp
    rw [writerow_plain (fun f hf c hc => (h _ hr f hf c hc).1) (by simp),
      writerow_plain (d := d') (fun f hf => List.mem_singleton.mp hf ▸ hplain) hne, List.intercalate_singleton]
  have hall : writerows d rows = writerows d' (rows.map fun row => [[d.delimiter].intercalate row]) := by
    rw [writerows, writerows, List.flatMap_map]
    exact List.flatMap_congr hrow
  rw [hall, reader_writerows]

end Csv
end Lib
