/-
# The CSV file of the client

`createCsv` and `readCsv` of `python-beginner/4.ora/csvclient.py`. The header is
`lm35,dht22` and the rows are `dht22,lm35`, and the reader splits at blanks where
the writer put commas. So it reads a row as one field, and the file never comes
back as two columns (`never_two_columns`); a reader that splits at commas finds each
list under the name of the other (`columns_swapped`).
-/
import Mathlib.Data.List.Basic
import Netacademia.Lib.Csv
import Netacademia.Lib.Loop
import Netacademia.Lib.Text

namespace Netacademia
namespace CsvClient

open Lib Csv

def LM35 : List Char := ['l', 'm', '3', '5']

def DHT22 : List Char := ['d', 'h', 't', '2', '2']

/-- The dictionary `data`. -/
structure Data where
  dht22 : List ℤ
  lm35 : List ℤ
  deriving DecidableEq, Repr

/-- `delimiter=',', quotechar='|'` -/
def writeDialect : Dialect := ⟨',', '|', by decide, by decide, by decide⟩

/-- `delimiter=' ', quotechar='|'` -/
def readDialect : Dialect := ⟨' ', '|', by decide, by decide, by decide⟩

/-- `[data['dht22'][x], data['lm35'][x]]`; nothing for an IndexError. -/
def dataRow (data : Data) (x : ℕ) : Option (List (List Char)) := do
  let dht22 ← data.dht22[x]?
  let lm35 ← data.lm35[x]?
  return [intText dht22, intText lm35]

/-- The text of `datas.csv`. -/
def createCsv (data : Data) : Option (List Char) := do
  let rows ← (List.range data.dht22.length).mapM (dataRow data)
  return writerows writeDialect ([LM35, DHT22] :: rows)

/-- The rows that `readCsv` prints; nothing for an error of the reader. -/
def readCsv (text : List Char) : Option (List (List (List Char))) := reader readDialect text

/-- The numbers under a name of the header. -/
def column (header : List (List Char)) (rows : List (List (List Char))) (name : List Char) : Option (List ℤ) := do
  let i ← header.findIdx? (· == name)
  rows.mapM fun row => row[i]?.bind pyInt

/-- The file has a header of two columns and a row for each index, and under its name
each list is there again. -/
def RoundTrips (read : List Char → Option (List (List (List Char)))) (data : Data) : Prop :=
  ∃ text header rows, createCsv data = some text ∧ read text = some (header :: rows) ∧
    header.length = 2 ∧ rows.length = data.dht22.length ∧
    column header rows LM35 = some data.lm35 ∧ column header rows DHT22 = some data.dht22

/-! ### The file -/

section File

variable {data : Data}

/-- The rows that `createCsv` writes. -/
def table (data : Data) : List (List (List Char)) :=
  [LM35, DHT22] :: List.zipWith (fun dht22 lm35 => [intText dht22, intText lm35]) data.dht22 data.lm35

theorem createCsv_eq (h : data.lm35.length = data.dht22.length) :
    createCsv data = some (writerows writeDialect (table data)) := by
  have hrows : (List.range data.dht22.length).mapM (dataRow data) =
      some (List.zipWith (fun dht22 lm35 => [intText dht22, intText lm35]) data.dht22 data.lm35) := by
    rw [mapM_eq_some_iff_map]
    refine List.ext_getElem (by simp [h]) fun x hx _ => ?_
    have hd : x < data.dht22.length := by simpa using hx
    have hl : x < data.lm35.length := h ▸ hd
    simp [dataRow, hd, hl]
  rw [createCsv, hrows]
  rfl

theorem special_intText {d : Dialect} (hd : d.delimiter.isDigit = false ∧ d.delimiter ≠ '-')
    (hq : d.quotechar.isDigit = false ∧ d.quotechar ≠ '-') (n : ℤ) : ∀ c ∈ intText n, special d c = false := by
  have hplain : ∀ c, c = '-' ∨ c.isDigit = true → ∀ x : Char, x.isDigit = false ∧ x ≠ '-' → c ≠ x := by
    rintro c hc x ⟨hx, hx'⟩ rfl
    rcases hc with rfl | hc
    · exact hx' rfl
    · rw [hx] at hc
      cases hc
  intro c hc
  have hne := hplain c (isDigit_intText n c hc)
  rw [special_eq_false]
  exact ⟨hne _ hd, hne _ hq, by simp [isNewline, hne '\r' (by decide), hne '\n' (by decide)]⟩

/-- `readCsv` reads each row as one field, with the commas in it. -/
theorem readCsv_createCsv (h : data.lm35.length = data.dht22.length) :
    (createCsv data).bind readCsv = some ((table data).map fun row => [[','].intercalate row]) := by
  have hheader : [LM35, DHT22].all (fun f => f.all fun c => !special writeDialect c && !special readDialect c) =
      true := rfl
  rw [createCsv_eq h, Option.bind_some, readCsv]
  refine reader_other (by decide) (fun row hr => ?_) fun row hr f hf c hc => ?_
  · rcases List.mem_cons.mp hr with rfl | hr
    · exact Nat.le_refl 2
    · obtain ⟨x, hx, rfl⟩ := List.mem_iff_getElem.mp hr
      simp
  · rcases List.mem_cons.mp hr with rfl | hr
    · simpa using List.all_eq_true.mp (List.all_eq_true.mp hheader f hf) c hc
    · obtain ⟨x, hx, rfl⟩ := List.mem_iff_getElem.mp hr
      rw [List.getElem_zipWith] at hf
      obtain ⟨n, rfl⟩ : ∃ n, f = intText n := by
        rcases List.mem_cons.mp hf with rfl | hf
        · exact ⟨_, rfl⟩
        · exact ⟨_, List.mem_singleton.mp hf⟩
      exact ⟨special_intText (by decide) (by decide) n c hc, special_intText (by decide) (by decide) n c hc⟩

end File

/-! ### Reading it back -/

/-- The header that `readCsv` reads is one field. -/
theorem header_readCsv {data : Data} {text : List Char} {header : List (List Char)}
    {rows : List (List (List Char))} (hc : createCsv data = some text)
    (hr : readCsv text = some (header :: rows)) : header.length = 1 := by
  -- the line of the header is the one that a writer with blanks writes for one field
  have hline : writerow writeDialect [LM35, DHT22] = writerow readDialect [LM35 ++ ',' :: DHT22] := by decide
  obtain ⟨rows', -, htext⟩ := Option.bind_eq_some_iff.mp hc
  rw [← Option.some.inj htext, writerows, List.flatMap_cons, hline, readCsv, reader, read_writerow,
    Option.map_eq_some_iff] at hr
  obtain ⟨_, -, he⟩ := hr
  rw [← (List.cons.inj he).1]
  rfl

/-- **The file never reads back as two columns.** -/
theorem never_two_columns (data : Data) : ¬ RoundTrips readCsv data := by
  rintro ⟨text, header, rows, hc, hr, hlen, -⟩
  have hone := header_readCsv hc hr
  omega

/-- One reading of each sensor. -/
def sample : Data := ⟨[12], [15]⟩

theorem sample_not_read : ¬ ∀ data : Data, data.lm35.length = data.dht22.length → RoundTrips readCsv data := by
  intro h
  obtain ⟨text, header, rows, hc, hr, hlen, -⟩ := h sample rfl
  have hone := header_readCsv hc hr
  omega

theorem readCsv_createCsv_sample :
    (createCsv sample).bind readCsv = some ((table sample).map fun row => [[','].intercalate row]) :=
  readCsv_createCsv (show sample.lm35.length = sample.dht22.length from rfl)

/-- In the rows the first field is of the one list and the second of the other. -/
theorem column_table {data : Data} (h : data.lm35.length = data.dht22.length) :
    column [LM35, DHT22] (table data).tail LM35 = some data.dht22 ∧
      column [LM35, DHT22] (table data).tail DHT22 = some data.lm35 := by
  have hfirst : (table data).tail.mapM (fun row => row[0]?.bind pyInt) = some data.dht22 := by
    rw [mapM_eq_some_iff_map]
    exact List.ext_getElem (by simp [table, h]) fun x _ _ => by simp [table, pyInt_intText]
  have hsecond : (table data).tail.mapM (fun row => row[1]?.bind pyInt) = some data.lm35 := by
    rw [mapM_eq_some_iff_map]
    exact List.ext_getElem (by simp [table, h]) fun x _ _ => by simp [table, pyInt_intText]
  exact ⟨hfirst, hsecond⟩

/-- With the commas of the writer there are two columns, each under the name of the
other: the lists come back where they are the same. -/
theorem columns_swapped (data : Data) (h : data.lm35.length = data.dht22.length) :
    RoundTrips (reader writeDialect) data ↔ data.lm35 = data.dht22 := by
  obtain ⟨hlm, hdht⟩ := column_table h
  constructor
  · rintro ⟨text, header, rows, hc, hr, -, -, hcol, -⟩
    rw [createCsv_eq h, Option.some.injEq] at hc
    rw [← hc, reader_writerows, table, Option.some.injEq, List.cons.injEq] at hr
    obtain ⟨rfl, rfl⟩ := hr
    exact Option.some.inj (hcol.symm.trans hlm)
  · intro he
    refine ⟨_, _, _, createCsv_eq h, reader_writerows (table data), rfl, ?_, ?_, ?_⟩
    · simp [he]
    · exact hlm.trans (congrArg some he.symm)
    · exact hdht.trans (congrArg some he)

theorem columns_swapped_sample : RoundTrips (reader writeDialect) sample ↔ sample.lm35 = sample.dht22 :=
  columns_swapped sample rfl

end CsvClient
end Netacademia
