import Collate.Proofs.Distinct
import Collate.Proofs.Table.WellFormed

/-!
Tables only grow. Headers and rows are appended; nothing that is there moves or
changes, and rows gain empty cells under headers that come after them. All of it
rests on one equation for each operation: the headers are the old ones and then the
new ones as they come, and the rows are the old ones and then the new ones, filled
up to those headers.
-/

namespace Collate.Table

/-! What is promised. -/

/-- Tables that operations made, one after the other. -/
inductive Built : Table → Prop
  | withHeaders (headers : List String) : Built (withHeaders headers)
  | ofRecords (records : List (List (String × String))) : Built (ofRecords records)
  | addHeader {t : Table} (h : Built t) (header : String) : Built (t.addHeader header)
  | pushRow {t : Table} (h : Built t) (cells : List (String × String)) : Built (t.pushRow cells)
  | rename {t : Table} (h : Built t) (renames : Dict String) : Built (t.rename renames)
  | extend {t other : Table} (h : Built t) (ho : Built other) : Built (t.extend other)

/-- A table is another one with headers and rows appended, the rows given by
their cells. -/
structure Appends (before after : Table) (brought : List String)
    (added : List (String → String)) : Prop where
  /-- Headers stay in front, and those that are new follow as they come. -/
  headers : after.headers =
    before.headers ++ (brought.filter fun h => !before.hasHeader h).eraseDups
  size : after.size = before.size + added.length
  /-- A row stays where it is with all its cells, and gains empty ones. -/
  kept : ∀ (n : Nat) (row : Row), before.rows[n]? = some row →
    ∃ later, after.rows[n]? = some later ∧
      (∀ h ∈ before.headers, later.get? h = row.get? h) ∧
      ∀ h ∈ after.headers, h ∉ before.headers → later.get? h = some ""
  added : ∀ (n : Nat) (cell : String → String), added[n]? = some cell →
    ∃ row, after.rows[before.size + n]? = some row ∧
      ∀ h ∈ after.headers, row.get? h = some (cell h)

/-! The equations. -/

def grown (t : Table) (headers : List String) (rows : List Row) : Table :=
  let all := (t.headers ++ headers).eraseDups
  ⟨all, (t.rows ++ rows).map (fill all)⟩

/-- Rows may be filled up before others are appended to them. -/
theorem map_fill_append {first all : List String} (h : ∀ header ∈ first, header ∈ all)
    (rows others : List Row) :
    (rows.map (fill first) ++ others).map (fill all) = (rows ++ others).map (fill all) := by
  rw [List.map_append, List.map_map, List.map_append]
  congr 1
  exact List.map_congr_left fun row _ => fill_fill h row

/-- Growing twice is growing once by both. -/
theorem grown_grown (t : Table) (headers more : List String) (rows others : List Row) :
    (t.grown headers rows).grown more others = t.grown (headers ++ more) (rows ++ others) := by
  have hall : ((t.headers ++ headers).eraseDups ++ more).eraseDups =
      (t.headers ++ (headers ++ more)).eraseDups := by
    rw [eraseDups_append_eraseDups, List.append_assoc]
  have hfirst : ∀ h ∈ (t.headers ++ headers).eraseDups,
      h ∈ (t.headers ++ (headers ++ more)).eraseDups := by
    simp only [List.mem_eraseDups, List.mem_append]
    tauto
  simp only [grown, hall, map_fill_append hfirst, List.append_assoc]

theorem WellFormed.grown_nil {t : Table} (h : t.WellFormed) : t.grown [] [] = t := by
  simp only [grown, List.append_nil, eraseDups_of_nodup h.headers_nodup, h.map_fill]

theorem WellFormed.addHeader_eq {t : Table} (h : t.WellFormed) (header : String) :
    t.addHeader header = t.grown [header] [] := by
  have hall : (t.headers ++ [header]).eraseDups =
      if header ∈ t.headers then t.headers else t.headers ++ [header] := by
    rw [eraseDups_append_cons, List.append_nil]
    exact eraseDups_of_nodup (addHeader_headers t header ▸ (h.addHeader header).headers_nodup)
  rw [grown, List.append_nil, hall]
  by_cases hmem : header ∈ t.headers
  · simp only [Table.addHeader, hasHeader_iff, hmem, if_true, h.map_fill]
  · simp only [Table.addHeader, hasHeader_iff, hmem, if_false]
    congr 1
    apply List.map_congr_left
    intro row hrow
    have hfits := h.cells row hrow
    have hlacks : row.contains header = false := by
      simpa using fun hc => hmem ((hfits header).mp hc)
    have hsplit : fill (t.headers ++ [header]) row = fill [header] (fill t.headers row) :=
      List.foldl_append
    rw [hsplit, fill_of_fits hfits]
    simp [fill, hlacks]

theorem WellFormed.addHeaders_eq {t : Table} (h : t.WellFormed) (headers : List String) :
    t.addHeaders headers = t.grown headers [] := by
  induction headers generalizing t with
  | nil => exact h.grown_nil.symm
  | cons header rest ih =>
    have hstep : t.addHeaders (header :: rest) = (t.addHeader header).addHeaders rest := rfl
    rw [hstep, ih (h.addHeader header), h.addHeader_eq, grown_grown]
    rfl

theorem withHeaders_eq (headers : List String) : withHeaders headers = ⟨headers.eraseDups, []⟩ :=
  empty_wellFormed.addHeaders_eq headers

/-- Adding headers and then filled rows is growing by both. -/
theorem WellFormed.grown_of_addHeaders {t : Table} (h : t.WellFormed) (headers : List String)
    (rows : List Row) :
    { t.addHeaders headers with
      rows := (t.addHeaders headers).rows ++ rows.map (fill (t.addHeaders headers).headers) } =
      t.grown headers rows := by
  rw [h.addHeaders_eq]
  simp only [grown, List.append_nil, List.map_append]

theorem WellFormed.pushRow_eq {t : Table} (h : t.WellFormed) (cells : List (String × String)) :
    t.pushRow cells = t.grown (cells.map (·.1)) [Dict.ofList cells] :=
  h.grown_of_addHeaders (cells.map Prod.fst) [Dict.ofList cells]

theorem WellFormed.extend_eq {t : Table} (h : t.WellFormed) (other : Table) :
    t.extend other = t.grown other.headers other.rows :=
  h.grown_of_addHeaders other.headers other.rows

/-- Each record becomes a row. -/
theorem WellFormed.foldl_pushRow_eq {t : Table} (h : t.WellFormed)
    (records : List (List (String × String))) : records.foldl Table.pushRow t =
      t.grown (records.flatMap fun cells => cells.map (·.1)) (records.map Dict.ofList) := by
  induction records generalizing t with
  | nil => exact h.grown_nil.symm
  | cons cells rest ih =>
    rw [List.foldl_cons, ih (h.pushRow cells), h.pushRow_eq, grown_grown]
    rfl

/-- Each table is appended. -/
theorem WellFormed.foldl_extend_eq {t : Table} (h : t.WellFormed) {tables : List Table}
    (hw : ∀ other ∈ tables, other.WellFormed) : tables.foldl Table.extend t =
      t.grown (tables.flatMap (·.headers)) (tables.flatMap (·.rows)) := by
  induction tables generalizing t with
  | nil => exact h.grown_nil.symm
  | cons first rest ih =>
    rw [List.forall_mem_cons] at hw
    rw [List.foldl_cons, ih (h.extend hw.1) hw.2, h.extend_eq, grown_grown]
    rfl

/-! Cells of tables that grew. -/

theorem grown_cells (t : Table) (headers : List String) (rows : List Row) :
    (t.grown headers rows).rows.map rowCell = t.rows.map rowCell ++ rows.map rowCell := by
  simp only [grown, List.map_map, ← List.map_append]
  exact List.map_congr_left fun row _ => rowCell_fill _ row

theorem foldl_pushRow_headers {t : Table} (h : t.WellFormed)
    (records : List (List (String × String))) : (records.foldl pushRow t).headers =
      (t.headers ++ records.flatMap fun cells => cells.map (·.1)).eraseDups :=
  congrArg Table.headers (h.foldl_pushRow_eq records)

/-- Each record becomes a row with its cells, all others being empty. -/
theorem foldl_pushRow_cells {t : Table} (h : t.WellFormed)
    (records : List (List (String × String))) : (records.foldl pushRow t).rows.map rowCell =
      t.rows.map rowCell ++ records.map fun cells => rowCell (Dict.ofList cells) := by
  rw [h.foldl_pushRow_eq, grown_cells, List.map_map]
  rfl

theorem cell_eq_rowCell (t : Table) (n : Nat) :
    t.cell n = ((t.rows.map rowCell)[n]?).getD fun _ => "" := by
  funext header
  rw [cell, List.getElem?_map]
  cases t.rows[n]? with
  | none => rfl
  | some row => rfl

/-- A record is read from the back: its last cell under a header counts. -/
theorem rowCell_ofList_reverse (cells : List (String × String)) :
    rowCell (Dict.ofList cells) = fun h => (cells.reverse.lookup h).getD "" := by
  funext h
  rw [rowCell, Dict.get?_ofList_eq_lookup]

theorem WellFormed.appends_grown {t : Table} (h : t.WellFormed) (headers : List String)
    (rows : List Row) : Appends t (t.grown headers rows) headers (rows.map rowCell) where
  headers := by
    simp only [grown, eraseDups_append_of_nodup h.headers_nodup, hasHeader, List.contains_eq_mem,
      decide_not]
  size := by simp [grown, Table.size]
  kept := by
    intro n row hrow
    have hbefore : n < t.rows.length := (List.getElem?_eq_some_iff.mp hrow).1
    have hfits := h.cells row (List.mem_of_getElem? hrow)
    refine ⟨fill (t.grown headers rows).headers row, ?_, ?_, ?_⟩
    · simp only [grown, List.getElem?_map, List.getElem?_append_left hbefore, hrow,
        Option.map_some]
    · intro header hmem
      have hall : header ∈ (t.grown headers rows).headers := by simp [grown, hmem]
      rw [get?_fill_of_mem hall, get?_of_fits hfits, if_pos hmem]
    · intro header hall hmem
      rw [get?_fill_of_mem hall, rowCell_of_not_mem hfits hmem]
  added := by
    intro n cell hcell
    rw [List.getElem?_map] at hcell
    obtain ⟨row, hrow, rfl⟩ := Option.map_eq_some_iff.mp hcell
    refine ⟨fill (t.grown headers rows).headers row, ?_, fun header hall =>
      get?_fill_of_mem hall row⟩
    have hbehind : t.rows.length ≤ t.rows.length + n := Nat.le_add_right ..
    simp only [grown, Table.size, List.getElem?_map, List.getElem?_append_right hbehind,
      Nat.add_sub_cancel_left, hrow, Option.map_some]

/-! Tables that operations made. -/

theorem Built.wellFormed {t : Table} (h : Built t) : t.WellFormed := by
  induction h with
  | withHeaders headers => exact withHeaders_wellFormed headers
  | ofRecords records => exact ofRecords_wellFormed records
  | addHeader _ header ih => exact ih.addHeader header
  | pushRow _ cells ih => exact ih.pushRow cells
  | rename _ renames ih => exact ih.rename renames
  | extend _ _ iht iho => exact iht.extend iho

theorem Built.foldl_pushRow {t : Table} (h : Built t) (records : List (List (String × String))) :
    Built (records.foldl Table.pushRow t) := by
  induction records generalizing t with
  | nil => exact h
  | cons cells rest ih => exact ih (h.pushRow cells)

/-- Operations make every well-formed table, and no other. -/
theorem built_iff_wellFormed (t : Table) : Built t ↔ t.WellFormed := by
  refine ⟨Built.wellFormed, fun h => ?_⟩
  have hmade := (Built.withHeaders t.headers).foldl_pushRow (t.rows.map (·.entries))
  rw [withHeaders_of_nodup h.headers_nodup, foldl_pushRow_filled h.map_fill h.cells] at hmade
  exact hmade

/-- Tables that operations made are well formed, and adding a header, a row or
another table to one only appends to it. Of two cells of a record under one header
the later one is put into the row. -/
theorem built_only_appends {t : Table} (h : Built t) :
    t.WellFormed ∧
    (∀ header, Appends t (t.addHeader header) [header] []) ∧
    (∀ cells, Appends t (t.pushRow cells) (cells.map (·.1))
      [fun header => (cells.reverse.lookup header).getD ""]) ∧
    ∀ other, Appends t (t.extend other) other.headers (other.rows.map rowCell) := by
  have hw := h.wellFormed
  refine ⟨hw, fun header => ?_, fun cells => ?_, fun other => ?_⟩
  · rw [hw.addHeader_eq]
    exact hw.appends_grown [header] []
  · rw [hw.pushRow_eq, ← rowCell_ofList_reverse]
    exact hw.appends_grown (cells.map (·.1)) [Dict.ofList cells]
  · rw [hw.extend_eq]
    exact hw.appends_grown other.headers other.rows

/-- A table with a renamed column, and one that shares a column with it. -/
theorem built_only_appends_renamed :
    let t := (((withHeaders ["id", "id"]).pushRow [("id", "1"), ("tel", "2"), ("id", "3")]).rename
      (Dict.ofList [("tel", "phone")])).addHeader "name"
    let other := ofRecords [[("note", "x"), ("phone", "4")], [("town", "y")]]
    Built t ∧ Built other ∧ t.WellFormed ∧
      Appends t (t.extend other) ["note", "phone", "town"] (other.rows.map rowCell) ∧
      (t.extend other).headers = ["id", "phone", "name", "note", "town"] ∧
      (t.extend other).rows.map (fun row => (t.extend other).headers.map row.get?) =
        [[some "3", some "2", some "", some "", some ""],
          [some "", some "4", some "", some "x", some ""],
          [some "", some "", some "", some "", some "y"]] := by
  intro t other
  have ht : Built t := (((Built.withHeaders _).pushRow _).rename _).addHeader _
  obtain ⟨hw, -, -, hextend⟩ := built_only_appends ht
  exact ⟨ht, .ofRecords _, hw, hextend other, by decide +kernel, by decide +kernel⟩

end Collate.Table
