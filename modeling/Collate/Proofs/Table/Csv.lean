import Collate.Proofs.Csv.Octets
import Collate.Proofs.Table.WellFormed
import Collate.Table.Csv

/-!
Tables survive being written as comma-separated values. Reading pairs the
fields of each record with the trimmed names of the first one by position, so a
table comes back as soon as its headers are names that the reader keeps: not
empty, trimmed and without a byte-order mark in front.
-/

namespace Collate.Table

def listCells (headers : List String) (row : Row) : List (String × String) :=
  headers.map fun h => (h, rowCell row h)

/-- Under distinct names that are not empty every field is paired with its
name. -/
theorem pairCells_map {names taken : List String} (f : String → String)
    (hnodup : names.Nodup) (hnamed : ∀ n ∈ names, n ≠ "" ∧ n ∉ taken) :
    pairCells taken names (names.map f) = names.map fun n => (n, f n) := by
  induction names generalizing taken with
  | nil => rfl
  | cons name rest ih =>
    obtain ⟨hempty, htaken⟩ := hnamed name (by simp)
    simp only [List.nodup_cons] at hnodup
    have hrest : ∀ n ∈ rest, n ≠ "" ∧ n ∉ name :: taken := by
      intro n hn
      obtain ⟨hn', htaken'⟩ := hnamed n (by simp [hn])
      refine ⟨hn', ?_⟩
      simp only [List.mem_cons, not_or]
      exact ⟨fun heq => hnodup.1 (heq ▸ hn), htaken'⟩
    have htail := ih hnodup.2 hrest
    simp [pairCells, hempty, htaken, htail]

/-- The cells of rows that have one for exactly the headers are appended as those
rows. -/
theorem foldl_pushRow_listed {headers : List String} {rows : List Row}
    (hrows : ∀ row ∈ rows, Fits headers row) (start : Table) (hstart : start.headers = headers) :
    (rows.map (listCells headers)).foldl pushRow start =
      { start with rows := start.rows ++ rows } := by
  induction rows generalizing start with
  | nil => simp
  | cons row rest ih =>
    have hrow : Fits headers row := hrows row (by simp)
    have hlist : Dict.ofList (listCells headers row) = row := rowOf_rowCell hrow
    have hfits : Fits start.headers (Dict.ofList (listCells headers row)) := by
      rw [hlist, hstart]
      exact hrow
    rw [List.map_cons, List.foldl_cons, pushRow_of_contained fun h => (hfits h).mp,
      fill_of_fits hfits, hlist]
    rw [ih (fun r hr => hrows r (by simp [hr])) { start with rows := start.rows ++ [row] } hstart]
    simp

/-- The records of a table make it up again. -/
theorem ofFields_toFields {t : Table} (hw : t.WellFormed)
    (hnamed : ∀ h ∈ t.headers, h ≠ "" ∧ Text.trim h = h) : ofFields t.toFields = t := by
  have htrim : t.headers.map Text.trim = t.headers := by
    conv_rhs => rw [← List.map_id t.headers]
    exact List.map_congr_left fun h hh => (hnamed h hh).2
  have hkept : (t.headers.filter fun n => !n.isEmpty) = t.headers := by
    rw [List.filter_eq_self]
    intro h hh
    simpa using (hnamed h hh).1
  have hcells : ∀ row, pairCells [] t.headers (t.headers.map (rowCell row)) =
      listCells t.headers row := fun row =>
    pairCells_map (rowCell row) hw.headers_nodup fun h hh => ⟨(hnamed h hh).1, by simp⟩
  have hrecords : (t.rows.map fun row => t.headers.map (rowCell row)).map
      (pairCells [] t.headers) = t.rows.map (listCells t.headers) := by
    simp [hcells]
  -- each record in turn appends the row it was written from
  simp only [toFields, ofFields, htrim, hkept, withHeaders_of_nodup hw.headers_nodup, hrecords]
  rw [foldl_pushRow_listed hw.cells ⟨t.headers, []⟩ rfl]
  simp

/-- The written text begins with the first header, perhaps after a quotation
mark. -/
theorem head_writeRecords {name : List Char} {names : List (List Char)}
    {records : List (List (List Char))} {c : Char} (hname : name ≠ [])
    (h : (Csv.writeRecords ((name :: names) :: records)).head? = some c) :
    c = '"' ∨ name.head? = some c := by
  obtain ⟨first, rest, rfl⟩ : ∃ first rest, name = first :: rest := by
    cases name with
    | nil => exact absurd rfl hname
    | cons first rest => exact ⟨first, rest, rfl⟩
  have hrecord : ∃ more, Csv.writeRecord ((first :: rest) :: names) =
      Csv.writeField (first :: rest) ++ more := by
    cases names with
    | nil => exact ⟨['\n'], by simp [Csv.writeRecord, Csv.writeFields]⟩
    | cons next others => exact ⟨',' :: Csv.writeFields (next :: others) ++ ['\n'],
        by simp [Csv.writeRecord, Csv.writeFields]⟩
  obtain ⟨more, hmore⟩ := hrecord
  rw [Csv.writeRecords, List.flatMap_cons, hmore] at h
  unfold Csv.writeField at h
  split at h
  · left
    simpa using h.symm
  · right
    simpa using h

/-- A table whose headers the reader keeps is read back from what it is written
as, cell by cell. -/
theorem ofCsv_toCsv (t : Table) (hw : t.WellFormed) (hheaders : t.headers ≠ [])
    (hnamed : ∀ h ∈ t.headers, h ≠ "" ∧ Text.trim h = h)
    (hmark : ∀ h, t.headers.head? = some h → h.toList.head? ≠ some '\uFEFF') :
    ofCsv (Text.Utf8.ofText t.toCsv) = .ok t := by
  obtain ⟨first, others, hcons⟩ : ∃ first others, t.headers = first :: others := by
    cases hh : t.headers with
    | nil => exact absurd hh hheaders
    | cons first others => exact ⟨first, others, rfl⟩
  let records := t.toFields.map fun fields => fields.map String.toList
  have htext : Text.Utf8.ofText t.toCsv = Text.Utf8.encode (Csv.writeRecords records) := by
    simp [Text.Utf8.ofText, toCsv, hcons, records]
  have hrecords : ∀ record ∈ records, record ≠ [] := by
    intro record hrecord
    simp only [records, toFields, List.map_cons, List.mem_cons, List.mem_map] at hrecord
    rcases hrecord with rfl | ⟨fields, ⟨row, -, rfl⟩, rfl⟩
    · simp [hcons]
    · simp [hcons]
  have hhead : (Csv.writeRecords records).head? ≠ some '\uFEFF' := by
    intro hsome
    have hfirst : first.toList ≠ [] := by
      have hne := (hnamed first (by simp [hcons])).1
      simpa using hne
    simp only [records, toFields, hcons, List.map_cons] at hsome
    rcases head_writeRecords hfirst hsome with hquote | hname
    · exact absurd hquote (by decide)
    · exact hmark first (by simp [hcons]) hname
  have hread : Csv.readRecords (Text.Utf8.ofText t.toCsv) = .ok t.toFields := by
    rw [htext, Csv.readRecords_encode, Csv.afterMark_of_head hhead]
    have hsplit := Csv.split_writeRecords hrecords 0
    have hback : (Csv.split Csv.markOfChar 0 (Csv.writeRecords records)).map
        (fun r => r.fields.map String.ofList) =
        ((Csv.split Csv.markOfChar 0 (Csv.writeRecords records)).map (·.fields)).map
          fun fields => fields.map String.ofList := by simp
    rw [hback, hsplit]
    simp [records, Function.comp_def]
  rw [ofCsv, hread]
  simp [Except.map, ofFields_toFields hw hnamed]

/-- One column with an empty cell, and a quotation mark, a delimiter and line
ends inside cells. -/
theorem ofCsv_toCsv_single_column :
    let notes := ["", " said \"no\", ", "\r", "a\r\n\nb", "\"", ""]
    let t := (notes.map fun n => [("the \"note\", if any", n)]).foldl pushRow
      (withHeaders ["the \"note\", if any"])
    t.rows.length = 6 ∧ ofCsv (Text.Utf8.ofText t.toCsv) = .ok t := by
  intro notes t
  have hheaders : t.headers = ["the \"note\", if any"] := by decide +kernel
  refine ⟨by decide +kernel, ofCsv_toCsv t ?_ ?_ ?_ ?_⟩
  · exact (withHeaders_wellFormed _).foldl_pushRow _
  · simp [hheaders]
  · rw [hheaders]
    decide +kernel
  · rw [hheaders]
    decide +kernel

end Collate.Table
