import Collate.Proofs.Csv.Octets
import Collate.Proofs.Table.Growth
import Collate.Proofs.Text.Blank
import Collate.Table.Csv

/-!
Which field of a record ends up in which cell. A name in the header record stands
for the first column it occurs in: the reader goes through names and fields side by
side, so the field it takes for a name is the one at the name's first index, and
every field whose column is blank, repeated or missing is left out.
-/

namespace Collate.Table

/-! What is promised. -/

/-- The headers of a table with the given header record: the trimmed fields that are
not blank, each name once. -/
def columns (header : List String) : List String :=
  ((header.filter fun field => !Text.isBlankText field).map Text.trim).eraseDups

/-- The field of a record in the first column of a name, empty when the record is too
short to have one. -/
def fieldUnder (header record : List String) (name : String) : String :=
  record.getD ((header.map Text.trim).idxOf name) ""

/-- Every record is a row of the table, and has in the cell of a header the field in
the first column of that name. -/
structure Lists (t : Table) (header : List String) (records : List (List String)) : Prop where
  headers : t.headers = columns header
  size : t.size = records.length
  /-- There is a cell for exactly the headers. -/
  cells : ∀ (n : Nat) (record : List String), records[n]? = some record →
    ∃ row, t.rows[n]? = some row ∧
      ∀ name, row.get? name =
        if name ∈ columns header then some (fieldUnder header record name) else none

/-! Names and fields, side by side. -/

/-- The reader trims the names first and leaves out the empty ones then. -/
theorem columns_eq (header : List String) :
    columns header = ((header.map Text.trim).filter fun name => !name.isEmpty).eraseDups := by
  rw [columns, List.filter_map]
  simp only [Function.comp_def, Text.trim_isEmpty]

theorem mem_columns {header : List String} {name : String} :
    name ∈ columns header ↔ name ∈ header.map Text.trim ∧ name ≠ "" := by
  simp [columns_eq]

/-- A name is paired with the field at its first index, unless it is empty or was met
before. -/
theorem find_pairCells (taken names fields : List String) (name : String) :
    Dict.find name (pairCells taken names fields) =
      if name ∈ names ∧ name ≠ "" ∧ name ∉ taken then some (fields.getD (names.idxOf name) "")
      else none := by
  induction names generalizing taken fields with
  | nil => rfl
  | cons first rest ih =>
    have hrest : ∀ position, (fields.drop 1).getD position "" = fields.getD (position + 1) "" := by
      intro position
      rw [List.getD_eq_getElem?_getD, List.getElem?_drop, Nat.add_comm,
        List.getD_eq_getElem?_getD]
    rw [pairCells]
    by_cases hname : first = name
    · subst hname
      by_cases hleft : first = "" ∨ first ∈ taken
      · have hskip : (first.isEmpty || taken.contains first) = true := by simpa using hleft
        rw [if_pos hskip, ih, if_neg (by tauto), if_neg (by tauto)]
      · have hpair : ¬(first.isEmpty || taken.contains first) = true := by simpa using hleft
        rw [if_neg hpair, Dict.find, if_pos rfl, if_pos ⟨by simp, not_or.mp hleft⟩,
          List.idxOf_cons_self]
        cases fields with
        | nil => rfl
        | cons field others => rfl
    · -- what is done with another name does not matter to this one
      have htail : ∀ met, (name ∉ met ↔ name ∉ taken) →
          Dict.find name (pairCells met rest (fields.drop 1)) =
            if name ∈ first :: rest ∧ name ≠ "" ∧ name ∉ taken then
              some (fields.getD ((first :: rest).idxOf name) "")
            else none := by
        intro met hmet
        simp only [ih, hmet, List.mem_cons, Ne.symm hname, false_or,
          List.idxOf_cons_ne rest hname, hrest]
      split
      · exact htail taken Iff.rfl
      · rw [Dict.find, if_neg hname]
        exact htail (first :: taken) (by simp [Ne.symm hname])

/-- No name is paired twice. -/
theorem pairCells_keys_nodup (taken names fields : List String) :
    ((pairCells taken names fields).map (·.1)).Nodup := by
  induction names generalizing taken fields with
  | nil => exact List.nodup_nil
  | cons first rest ih =>
    rw [pairCells]
    split
    · exact ih taken (fields.drop 1)
    · rw [List.map_cons, List.nodup_cons]
      refine ⟨fun hmem => ?_, ih (first :: taken) (fields.drop 1)⟩
      obtain ⟨cell, hcell, hfirst⟩ := List.mem_map.mp hmem
      have hnone : Dict.find first (pairCells (first :: taken) rest (fields.drop 1)) = none := by
        rw [find_pairCells, if_neg (by simp)]
      exact Dict.find_eq_none_iff.mp hnone cell hcell hfirst

/-- A record as a row: under each header the field of its column. -/
theorem ofList_pairCells (header record : List String) :
    Dict.ofList (pairCells [] (header.map Text.trim) record) =
      rowOf (columns header) (fieldUnder header record) := by
  apply Dict.ext_get?
  intro name
  rw [Dict.get?_ofList (pairCells_keys_nodup ..), find_pairCells, get?_rowOf]
  simp [mem_columns, fieldUnder]

/-- Only headers are paired. -/
theorem mem_columns_of_mem_pairCells {header record : List String} {name : String}
    (h : name ∈ (pairCells [] (header.map Text.trim) record).map (·.1)) :
    name ∈ columns header := by
  rw [← contains_ofList, ofList_pairCells] at h
  exact (fits_rowOf (columns header) (fieldUnder header record) name).mp h

/-! Whole tables. -/

/-- The table of a header record and data records has the columns of the one and a
row for each of the others. -/
theorem ofFields_eq (header : List String) (records : List (List String)) :
    ofFields (header :: records) =
      ⟨columns header, records.map fun record =>
        rowOf (columns header) (fieldUnder header record)⟩ := by
  have hstart : withHeaders ((header.map Text.trim).filter fun name => !name.isEmpty) =
      ⟨columns header, []⟩ := by rw [withHeaders_eq, columns_eq]
  have hwell : (⟨columns header, []⟩ : Table).WellFormed := hstart ▸ withHeaders_wellFormed _
  -- a record brings no header of its own
  have hnone : (columns header ++ (records.map (pairCells [] (header.map Text.trim))).flatMap
      fun cells => cells.map (·.1)).eraseDups = columns header := by
    rw [eraseDups_append_of_subset, eraseDups_of_nodup hwell.headers_nodup]
    intro name hname
    obtain ⟨cells, hcells, hmem⟩ := List.mem_flatMap.mp hname
    obtain ⟨record, -, rfl⟩ := List.mem_map.mp hcells
    exact mem_columns_of_mem_pairCells hmem
  have hfull : ∀ record, fill (columns header)
      (Dict.ofList (pairCells [] (header.map Text.trim) record)) =
        rowOf (columns header) (fieldUnder header record) := by
    intro record
    rw [ofList_pairCells, fill_of_fits (fits_rowOf _ _)]
  simp only [ofFields, hstart, hwell.foldl_pushRow_eq, grown, hnone, List.nil_append, List.map_map,
    Function.comp_def, hfull]

theorem lists_ofFields (header : List String) (records : List (List String)) :
    (ofFields (header :: records)).Lists header records where
  headers := by rw [ofFields_eq]
  size := by rw [ofFields_eq, Table.size, List.length_map]
  cells := by
    intro n record hrecord
    refine ⟨rowOf (columns header) (fieldUnder header record), ?_, get?_rowOf _ _⟩
    rw [ofFields_eq, List.getElem?_map, hrecord, Option.map_some]

/-- Octets that are split into a header record and data records, all of them text, are
read as the table that lists these. -/
theorem ofCsv_lists (octets : Octets) (header : List String) (records : List (List String))
    (h : (Csv.splitOctets octets).map (·.fields) =
      (header :: records).map fun fields => fields.map Text.Utf8.ofText) :
    ∃ t, ofCsv octets = .ok t ∧ t.Lists header records := by
  have hencoded : (Csv.splitOctets octets).map (·.fields) =
      ((header :: records).map fun fields => fields.map String.toList).map fun fields =>
        fields.map Text.Utf8.encode := by
    rw [h, List.map_map]
    simp only [Function.comp_def, List.map_map]
    rfl
  have hread : Csv.readRecords octets = .ok (header :: records) := by
    rw [Csv.readRecords, Csv.decodeRecords_encode hencoded, List.map_map]
    simp [Function.comp_def]
  exact ⟨ofFields (header :: records), by rw [ofCsv, hread]; rfl, lists_ofFields header records⟩

/-- A padded name, a blank one and a repeated one, and records that are too short and
too long. -/
theorem ofCsv_lists_ragged :
    let octets := Text.Utf8.ofText " id , ,name,id,\n 1 ,x,Acme,9,y,z\n2\n"
    (∃ t, ofCsv octets = .ok t ∧
      t.Lists [" id ", " ", "name", "id", ""] [[" 1 ", "x", "Acme", "9", "y", "z"], ["2"]]) ∧
    columns [" id ", " ", "name", "id", ""] = ["id", "name"] ∧
    fieldUnder [" id ", " ", "name", "id", ""] [" 1 ", "x", "Acme", "9", "y", "z"] "id" = " 1 " :=
  ⟨ofCsv_lists _ _ _ (by decide +kernel), by decide +kernel, by decide +kernel⟩

end Collate.Table
