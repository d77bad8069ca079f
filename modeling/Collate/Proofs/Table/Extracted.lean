import Collate.Extraction
import Collate.Proofs.Json.Reread
import Collate.Proofs.Table.Csv
import Collate.Table.Flatten

/-!
Comma-separated values reach a table by two ways: read directly, or extracted as
a payload of one object per row and flattened. The ways agree. An extracted
payload has objects of texts only, so it is read back as it was written; its
fields stand in header order, so flattening finds the headers again; and every row
of a table that was read has a cell for exactly the headers. Only headers without
a row are lost, because no object is there to carry them.
-/

namespace Collate.Table

variable {t : Table}

theorem ofFields_wellFormed (records : List (List String)) : (ofFields records).WellFormed := by
  cases records with
  | nil => exact empty_wellFormed
  | cons header rest => exact (withHeaders_wellFormed _).foldl_pushRow _

def rowFields (headers : List String) (row : Row) : List (String × Json) :=
  (listCells headers row).map fun cell => (cell.1, .string cell.2)

theorem listCells_keys (headers : List String) (row : Row) :
    (listCells headers row).map (·.1) = headers := by
  simp [listCells, Function.comp_def]

theorem rowFields_keys (headers : List String) (row : Row) :
    (rowFields headers row).map (·.1) = headers := by
  simp [rowFields, listCells, Function.comp_def]

theorem toRows_eq (t : Table) :
    t.toRows = .array (t.rows.map fun row => .object (rowFields t.headers row)) := by
  simp [toRows, rowFields, listCells, Function.comp_def]

/-- The values of a row are texts. -/
theorem rowFields_string {headers : List String} {row : Row} {field : String × Json}
    (h : field ∈ rowFields headers row) : ∃ text, field.2 = .string text := by
  obtain ⟨cell, -, rfl⟩ := List.mem_map.mp h
  exact ⟨cell.2, rfl⟩

/-- A payload of rows is two containers deep. -/
theorem toRows_sized (t : Table) : t.toRows.Sized 2 := by
  rw [toRows_eq, Json.sized_array_iff]
  intro item hitem
  obtain ⟨row, -, rfl⟩ := List.mem_map.mp hitem
  refine Json.sized_object_iff.mpr fun field hfield => ?_
  obtain ⟨text, htext⟩ := rowFields_string hfield
  exact htext ▸ .of_string text

theorem toRows_floatFree (t : Table) : t.toRows.FloatFree := by
  rw [toRows_eq]
  refine .of_items fun item hitem => ?_
  obtain ⟨row, -, rfl⟩ := List.mem_map.mp hitem
  refine .of_fields fun field hfield => ?_
  obtain ⟨text, htext⟩ := rowFields_string hfield
  exact htext ▸ .of_string text

theorem toRows_distinctKeys (hw : t.WellFormed) : t.toRows.DistinctKeys := by
  rw [toRows_eq]
  refine .of_items fun item hitem => ?_
  obtain ⟨row, -, rfl⟩ := List.mem_map.mp hitem
  refine .of_fields ?_ fun field hfield => ?_
  · rw [rowFields_keys]
    exact hw.headers_nodup
  · obtain ⟨text, htext⟩ := rowFields_string hfield
    exact htext ▸ .of_scalar rfl

/-- Rows are read back from their text, whatever their cells hold. -/
theorem read_toRows (t : Table) : Json.read t.toRows.text = .ok t.toRows :=
  Json.read_text ((toRows_sized t).mono (by decide)) (toRows_floatFree t)

/-- A payload of rows is one that is read back as it was written. -/
theorem readPayload_toRows (hw : t.WellFormed) : readPayload t.toRows.text = .ok t.toRows := by
  rw [readPayload_text ((toRows_sized t).mono (by decide)) (toRows_floatFree t),
    (toRows_distinctKeys hw).unify]

/-- Flattening an object of texts gives its fields as they are. -/
theorem fieldCells_texts (options : FlattenOptions) (cells : List (String × String)) :
    fieldCells options none (cells.map fun cell => (cell.1, .string cell.2)) = cells := by
  induction cells with
  | nil => rfl
  | cons cell rest ih =>
    rw [List.map_cons, fieldCells, ih]
    rfl

/-- Appending the first row of a table brings its headers. -/
theorem empty_pushRow (cells : List (String × String)) :
    empty.pushRow cells = (withHeaders (cells.map (·.1))).pushRow cells := by
  have hsame : (withHeaders (cells.map (·.1))).addHeaders (cells.map (·.1)) =
      withHeaders (cells.map (·.1)) :=
    addHeaders_of_mem fun header => (mem_withHeaders _ header).mpr
  rw [pushRow, pushRow, hsame]
  rfl

/-- Flattening the rows of a table gives the table, unless it has none. -/
theorem ofPayload_toRows (options : FlattenOptions) (hw : t.WellFormed) :
    ofPayload options t.toRows = if t.isEmpty then empty else t := by
  obtain ⟨headers, rows⟩ := t
  cases rows with
  | nil => rfl
  | cons row rest =>
    have hrecord : ∀ row, recordCells options (.object (rowFields headers row)) =
        listCells headers row := fun row => fieldCells_texts options (listCells headers row)
    have hrecords : (records (toRows ⟨headers, row :: rest⟩)).map (recordCells options) =
        (row :: rest).map (listCells headers) := by
      rw [toRows_eq, List.map_cons, List.map_cons]
      simp only [records, Json.isVoid, Bool.false_eq_true, if_false, List.map_cons, List.map_map,
        Function.comp_def, hrecord]
    rw [ofPayload, hrecords, ofRecords, List.map_cons, List.foldl_cons, empty_pushRow,
      listCells_keys, withHeaders_of_nodup hw.headers_nodup, ← List.foldl_cons, ← List.map_cons,
      foldl_pushRow_listed hw.cells ⟨headers, []⟩ rfl]
    rfl

/-- A text of comma-separated values is always extracted, and flattening what is
extracted gives the table that is read directly, or the empty table when that has
no rows. -/
theorem ofPayloadText_passThrough (config : DocumentConfig) (options : FlattenOptions)
    (text : List Char) (hconfig : config.contentType = some ContentType.csv) :
    ∃ t payload, ofCsv (Text.Utf8.encode text) = .ok t ∧
      Extraction.passThrough config (Text.Utf8.encode text) = .ok payload ∧
      ofPayloadText options payload = .ok (if t.isEmpty then empty else t) := by
  obtain ⟨records, hrecords⟩ : ∃ records, ofCsv (Text.Utf8.encode text) = .ok (ofFields records) :=
    ⟨_, by rw [ofCsv, Csv.readRecords_encode]; rfl⟩
  have hw := ofFields_wellFormed records
  refine ⟨ofFields records, (ofFields records).toRows.text, hrecords, ?_, ?_⟩
  · rw [Extraction.passThrough, Text.Utf8.decode_encode]
    simp only [hconfig, if_true, hrecords]
  · rw [ofPayloadText, readPayload_toRows hw]
    exact congrArg Except.ok (ofPayload_toRows options hw)

/-- A quotation mark, a delimiter and a control character inside a cell, a blank
and a repeated header, and a record that is too short. -/
theorem ofPayloadText_passThrough_quoted :
    let text := "id, note ,,id\n1,\"a \"\"b\"\", \x01\",x,2\n3\n".toList
    let t := [[("id", "1"), ("note", "a \"b\", \x01")], [("id", "3")]].foldl pushRow
      (withHeaders ["id", "note"])
    ∃ payload, Extraction.passThrough ⟨"acme", "invoice", .primary, some ContentType.csv⟩
        (Text.Utf8.encode text) = .ok payload ∧
      ofPayloadText .standard payload = .ok t := by
  intro text t
  obtain ⟨read, payload, hread, hpayload, htable⟩ := ofPayloadText_passThrough
    ⟨"acme", "invoice", .primary, some ContentType.csv⟩ .standard text rfl
  have hdirect : ofCsv (Text.Utf8.encode text) = .ok t := by decide +kernel
  obtain rfl : read = t := Except.ok.inj (hread.symm.trans hdirect)
  exact ⟨payload, hpayload, htable⟩

end Collate.Table
