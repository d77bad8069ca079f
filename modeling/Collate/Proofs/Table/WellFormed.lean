import Collate.Proofs.Dict
import Collate.Table.Basic

/-!
Tables stay well formed. Each operation appends headers that are new and gives
every row a cell for them, so a table that starts empty never gets a repeated
header or a row with a missing cell. A row that already has a cell for exactly
the headers is appended as it stands.
-/

namespace Collate.Table

def Fits (headers : List String) (row : Row) : Prop :=
  ∀ h, row.contains h = true ↔ h ∈ headers

@[simp] theorem hasHeader_iff (t : Table) (h : String) :
    t.hasHeader h = true ↔ h ∈ t.headers := by
  simp [hasHeader]

theorem get?_of_fits {headers : List String} {row : Row} (h : Fits headers row)
    (header : String) :
    row.get? header = if header ∈ headers then some (rowCell row header) else none := by
  split
  · rename_i hmem
    obtain ⟨value, hvalue⟩ := Option.isSome_iff_exists.mp ((h header).mpr hmem)
    simp [rowCell, hvalue]
  · rename_i hmem
    have hnot : row.contains header ≠ true := fun hc => hmem ((h header).mp hc)
    simpa [Dict.contains] using hnot

/-- Under a header that the row lacks its cell counts as empty. -/
theorem rowCell_of_not_mem {headers : List String} {row : Row} (h : Fits headers row)
    {header : String} (hmem : header ∉ headers) : rowCell row header = "" := by
  simp [rowCell, get?_of_fits h, hmem]

def rowOf (headers : List String) (cell : String → String) : Row :=
  Dict.ofList (headers.map fun h => (h, cell h))

theorem get?_rowOf (headers : List String) (cell : String → String) (h : String) :
    (rowOf headers cell).get? h = if h ∈ headers then some (cell h) else none :=
  Dict.get?_ofList_map headers cell h

theorem fits_rowOf (headers : List String) (cell : String → String) :
    Fits headers (rowOf headers cell) := by
  intro h
  rw [← Dict.get?_isSome, get?_rowOf]
  split <;> simp_all

theorem rowCell_rowOf {headers : List String} {h : String} (hmem : h ∈ headers)
    (cell : String → String) : rowCell (rowOf headers cell) h = cell h := by
  rw [rowCell, get?_rowOf, if_pos hmem, Option.getD_some]

/-- Only the cells under the headers count. -/
theorem rowOf_congr {headers others : List String} {cell cell' : String → String}
    (hmem : ∀ h, h ∈ headers ↔ h ∈ others) (hcell : ∀ h ∈ headers, cell h = cell' h) :
    rowOf headers cell = rowOf others cell' := by
  apply Dict.ext_get?
  intro h
  rw [get?_rowOf, get?_rowOf]
  by_cases hh : h ∈ headers
  · rw [if_pos hh, if_pos ((hmem h).mp hh), hcell h hh]
  · rw [if_neg hh, if_neg fun hother => hh ((hmem h).mpr hother)]

/-- A row is made up of its cells. -/
theorem rowOf_rowCell {headers : List String} {row : Row} (h : Fits headers row) :
    rowOf headers (rowCell row) = row :=
  Dict.ext_get? fun header => (get?_rowOf _ _ header).trans (get?_of_fits h header).symm

/-! Adding headers. -/

theorem addHeader_headers (t : Table) (header : String) :
    (t.addHeader header).headers =
      if header ∈ t.headers then t.headers else t.headers ++ [header] := by
  unfold addHeader
  by_cases h : header ∈ t.headers
  · simp [h, hasHeader]
  · simp [h, hasHeader]

theorem WellFormed.addHeader {t : Table} (h : t.WellFormed) (header : String) :
    (t.addHeader header).WellFormed := by
  unfold Table.addHeader
  by_cases hmem : header ∈ t.headers
  · simpa [hasHeader, hmem] using h
  · simp only [hasHeader, List.contains_iff_mem, hmem, if_false]
    refine ⟨?_, ?_⟩
    · simp only [List.nodup_append, List.nodup_cons, List.not_mem_nil, not_false_eq_true,
        List.nodup_nil, and_self, List.mem_singleton, true_and]
      exact ⟨h.headers_nodup, fun a ha b hb heq => hmem (hb ▸ heq ▸ ha)⟩
    · intro row hrow other
      obtain ⟨old, hold, rfl⟩ := List.mem_map.mp hrow
      rw [Dict.contains_insert, Bool.or_eq_true, decide_eq_true_iff, h.cells old hold other]
      simp [or_comm, eq_comm]

theorem WellFormed.addHeaders {t : Table} (h : t.WellFormed) (headers : List String) :
    (t.addHeaders headers).WellFormed := by
  unfold Table.addHeaders
  induction headers generalizing t with
  | nil => exact h
  | cons header rest ih => exact ih (h.addHeader header)

theorem mem_addHeaders (t : Table) (headers : List String) (h : String) :
    h ∈ (t.addHeaders headers).headers ↔ h ∈ t.headers ∨ h ∈ headers := by
  unfold addHeaders
  induction headers generalizing t with
  | nil => simp
  | cons header rest ih =>
    rw [List.foldl_cons, ih, addHeader_headers]
    by_cases hmem : header ∈ t.headers
    · simp only [hmem, if_true, List.mem_cons]
      constructor
      · rintro (hold | hrest)
        · exact Or.inl hold
        · exact Or.inr (Or.inr hrest)
      · rintro (hold | rfl | hrest)
        · exact Or.inl hold
        · exact Or.inl hmem
        · exact Or.inr hrest
    · simp [hmem, or_assoc]

theorem addHeaders_of_mem {t : Table} {headers : List String}
    (h : ∀ header ∈ headers, header ∈ t.headers) : t.addHeaders headers = t := by
  unfold addHeaders
  induction headers with
  | nil => rfl
  | cons header rest ih =>
    have hstep : t.addHeader header = t := by
      simp [addHeader, hasHeader, h header (by simp)]
    rw [List.foldl_cons, hstep]
    exact ih fun other hother => h other (by simp [hother])

/-- Distinct headers are appended as far as they are new. -/
theorem addHeaders_headers {headers : List String} (t : Table) (h : headers.Nodup) :
    (t.addHeaders headers).headers = t.headers ++ headers.filter fun x => !t.hasHeader x := by
  unfold addHeaders
  induction headers generalizing t with
  | nil => simp
  | cons header rest ih =>
    simp only [List.nodup_cons] at h
    rw [List.foldl_cons, ih _ h.2, addHeader_headers]
    by_cases hmem : header ∈ t.headers
    · have hsame : t.addHeader header = t := by simp [addHeader, hasHeader, hmem]
      simp [hmem, hsame, hasHeader]
    · -- the header just added is not among the rest, so the same ones are new
      have hrest : (rest.filter fun x => !(t.addHeader header).hasHeader x) =
          rest.filter fun x => !t.hasHeader x := by
        apply List.filter_congr
        intro other hother
        have hne : other ≠ header := fun heq => h.1 (heq ▸ hother)
        simp [hasHeader, addHeader_headers, hmem, hne]
      rw [hrest]
      simp [hmem, hasHeader]

theorem empty_wellFormed : Table.empty.WellFormed :=
  ⟨List.nodup_nil, fun row hrow => absurd hrow (by simp [Table.empty])⟩

theorem withHeaders_wellFormed (headers : List String) : (withHeaders headers).WellFormed :=
  empty_wellFormed.addHeaders headers

theorem mem_withHeaders (headers : List String) (h : String) :
    h ∈ (withHeaders headers).headers ↔ h ∈ headers := by
  simp [withHeaders, mem_addHeaders, Table.empty]

@[simp] theorem withHeaders_rows (headers : List String) : (withHeaders headers).rows = [] := by
  have hrows : ∀ t : Table, t.rows = [] → (t.addHeaders headers).rows = [] := by
    unfold addHeaders
    induction headers with
    | nil => exact fun t ht => ht
    | cons header rest ih =>
      intro t ht
      refine ih (t.addHeader header) ?_
      unfold addHeader
      split
      · exact ht
      · simp [ht]
  exact hrows Table.empty rfl

theorem withHeaders_of_nodup {headers : List String} (h : headers.Nodup) :
    withHeaders headers = ⟨headers, []⟩ := by
  have hheaders : (withHeaders headers).headers = headers := by
    rw [withHeaders, addHeaders_headers _ h]
    simp [Table.empty, hasHeader]
  have hrows := withHeaders_rows headers
  cases hw : withHeaders headers with
  | mk hs rs =>
    simp only [hw] at hheaders hrows
    rw [hheaders, hrows]

/-! Appending rows. -/

theorem get?_fill (headers : List String) (row : Row) (h : String) :
    (fill headers row).get? h = (row.get? h).or (if h ∈ headers then some "" else none) := by
  unfold fill
  induction headers generalizing row with
  | nil => simp
  | cons header rest ih =>
    rw [List.foldl_cons, ih]
    by_cases hc : row.contains header = true
    · rw [if_pos hc]
      by_cases heq : h = header
      · subst heq
        obtain ⟨value, hvalue⟩ := Option.isSome_iff_exists.mp hc
        simp [hvalue]
      · simp [heq]
    · rw [if_neg hc, Dict.get?_insert]
      by_cases heq : header = h
      · subst heq
        have hnone : row.get? header = none := by simpa [Dict.contains] using hc
        simp [hnone]
      · simp [heq, Ne.symm heq]

theorem contains_fill (headers : List String) (row : Row) (h : String) :
    (fill headers row).contains h = true ↔ row.contains h = true ∨ h ∈ headers := by
  simp only [Dict.contains, get?_fill]
  cases hrow : row.get? h with
  | none => simp
  | some value => simp

theorem fill_of_fits {headers : List String} {row : Row} (h : Fits headers row) :
    fill headers row = row := by
  apply Dict.ext_get?
  intro key
  rw [get?_fill, get?_of_fits h]
  split <;> rfl

/-- The order of the headers does not matter. -/
theorem fill_congr {headers others : List String}
    (h : ∀ header, header ∈ headers ↔ header ∈ others) : fill headers = fill others := by
  funext row
  apply Dict.ext_get?
  intro header
  simp only [get?_fill, h]

/-- Filling up changes no cell, as a missing one counts as empty. -/
theorem rowCell_fill (headers : List String) (row : Row) :
    rowCell (fill headers row) = rowCell row := by
  funext header
  rw [rowCell, rowCell, get?_fill]
  cases row.get? header with
  | some value => rfl
  | none =>
    by_cases hmem : header ∈ headers
    · simp [hmem]
    · simp [hmem]

theorem get?_fill_of_mem {headers : List String} {header : String} (h : header ∈ headers)
    (row : Row) : (fill headers row).get? header = some (rowCell row header) := by
  rw [get?_fill, if_pos h, rowCell]
  cases row.get? header with
  | none => rfl
  | some value => rfl

/-- Filling up to some of the headers first makes no difference. -/
theorem fill_fill {first all : List String} (h : ∀ header ∈ first, header ∈ all) (row : Row) :
    fill all (fill first row) = fill all row := by
  apply Dict.ext_get?
  intro header
  rw [get?_fill, get?_fill, get?_fill]
  cases row.get? header with
  | some value => rfl
  | none =>
    by_cases hfirst : header ∈ first
    · simp [hfirst, h header hfirst]
    · simp [hfirst]

theorem WellFormed.map_fill {t : Table} (h : t.WellFormed) :
    t.rows.map (fill t.headers) = t.rows := by
  have hid : t.rows.map (fill t.headers) = t.rows.map id :=
    List.map_congr_left fun row hrow => fill_of_fits (h.cells row hrow)
  rw [hid, List.map_id]

theorem contains_ofList (cells : List (String × String)) (h : String) :
    (Dict.ofList cells).contains h = true ↔ h ∈ cells.map (·.1) := by
  rw [Dict.contains, Dict.get?_ofList_eq_lookup, List.lookup_isSome_iff]
  simp only [List.mem_reverse, List.mem_map, beq_iff_eq]
  exact exists_congr fun cell => and_congr_right fun _ => eq_comm

theorem rowCell_ofList {cells : List (String × String)} (h : (cells.map (·.1)).Nodup)
    {header text : String} (hmem : (header, text) ∈ cells) :
    rowCell (Dict.ofList cells) header = text := by
  rw [rowCell, Dict.get?_ofList h, Dict.find_of_mem h hmem]
  rfl

theorem rowCell_ofList_of_not_mem {cells : List (String × String)} {header : String}
    (h : header ∉ cells.map (·.1)) : rowCell (Dict.ofList cells) header = "" := by
  have hfits : Fits (cells.map (·.1)) (Dict.ofList cells) := contains_ofList cells
  exact rowCell_of_not_mem hfits h

theorem WellFormed.pushRow {t : Table} (h : t.WellFormed) (cells : List (String × String)) :
    (t.pushRow cells).WellFormed := by
  have hadd := h.addHeaders (cells.map (·.1))
  refine ⟨hadd.headers_nodup, ?_⟩
  intro row hrow other
  simp only [Table.pushRow, List.mem_append, List.mem_singleton] at hrow
  rcases hrow with hold | rfl
  · exact hadd.cells row hold other
  · rw [contains_fill, contains_ofList]
    constructor
    · rintro (hcell | hheader)
      · exact (mem_addHeaders t _ other).mpr (Or.inr hcell)
      · exact hheader
    · exact Or.inr

/-- Cells that bring no new header are appended as one row, filled up. -/
theorem pushRow_of_contained {t : Table} {cells : List (String × String)}
    (h : ∀ header, (Dict.ofList cells).contains header = true → header ∈ t.headers) :
    t.pushRow cells = { t with rows := t.rows ++ [fill t.headers (Dict.ofList cells)] } := by
  have hsame : t.addHeaders (cells.map (·.1)) = t :=
    addHeaders_of_mem fun header hmem => h header ((contains_ofList cells header).mpr hmem)
  simp only [pushRow, hsame]

/-- Rows that bring no new header are appended one after the other, filled
up. -/
theorem foldl_pushRow_of_contained {t : Table} {rows : List Row}
    (h : ∀ row ∈ rows, ∀ header, row.contains header = true → header ∈ t.headers) :
    (rows.map (·.entries)).foldl pushRow t =
      { t with rows := t.rows ++ rows.map (fill t.headers) } := by
  induction rows generalizing t with
  | nil => simp
  | cons row rest ih =>
    have hrow := h row (by simp)
    rw [← Dict.ofList_entries row] at hrow
    rw [List.map_cons, List.foldl_cons, pushRow_of_contained hrow, Dict.ofList_entries]
    have hrest := ih (t := { t with rows := t.rows ++ [fill t.headers row] })
      fun other hother => h other (by simp [hother])
    rw [hrest]
    simp

/-- Rows are appended as what they fill up to, if that has a cell for exactly the
headers. -/
theorem foldl_pushRow_filled {headers : List String} {rows filled : List Row}
    (hfilled : rows.map (fill headers) = filled) (hfits : ∀ row ∈ filled, Fits headers row) :
    (rows.map (·.entries)).foldl pushRow ⟨headers, []⟩ = ⟨headers, filled⟩ := by
  have hcontained : ∀ row ∈ rows, ∀ h, row.contains h = true → h ∈ headers := by
    intro row hrow h hc
    have hmem : fill headers row ∈ filled := hfilled ▸ List.mem_map_of_mem hrow
    exact (hfits _ hmem h).mp ((contains_fill _ _ _).mpr (Or.inl hc))
  rw [foldl_pushRow_of_contained (t := ⟨headers, []⟩) hcontained, hfilled]
  rfl

theorem WellFormed.foldl_pushRow {t : Table} (h : t.WellFormed)
    (records : List (List (String × String))) : (records.foldl Table.pushRow t).WellFormed := by
  induction records generalizing t with
  | nil => exact h
  | cons cells rest ih => exact ih (h.pushRow cells)

theorem ofRecords_wellFormed (records : List (List (String × String))) :
    (ofRecords records).WellFormed :=
  empty_wellFormed.foldl_pushRow records

theorem WellFormed.extend {t other : Table} (ht : t.WellFormed) (ho : other.WellFormed) :
    (t.extend other).WellFormed := by
  have hadd := ht.addHeaders other.headers
  refine ⟨hadd.headers_nodup, ?_⟩
  intro row hrow h
  simp only [Table.extend, List.mem_append, List.mem_map] at hrow
  rcases hrow with hold | ⟨old, hold, rfl⟩
  · exact hadd.cells row hold h
  · rw [contains_fill, ho.cells old hold h]
    constructor
    · rintro (hother | hheader)
      · exact (mem_addHeaders t _ h).mpr (Or.inr hother)
      · exact hheader
    · exact Or.inr

theorem WellFormed.foldl_extend {t : Table} (h : t.WellFormed) {tables : List Table}
    (hw : ∀ other ∈ tables, other.WellFormed) : (tables.foldl Table.extend t).WellFormed := by
  induction tables generalizing t with
  | nil => exact h
  | cons first rest ih =>
    rw [List.forall_mem_cons] at hw
    exact ih (h.extend hw.1) hw.2

/-- The rows of a table with the same headers are appended as they stand. -/
theorem extend_of_same {t other : Table} (ho : other.WellFormed)
    (hsame : other.headers = t.headers) : t.extend other = ⟨t.headers, t.rows ++ other.rows⟩ := by
  have hheaders : t.addHeaders other.headers = t := addHeaders_of_mem fun _ h => hsame ▸ h
  simp only [extend, hheaders, ← hsame, ho.map_fill]

theorem foldl_extend_of_same {headers : List String} {tables : List Table}
    (hw : ∀ t ∈ tables, t.WellFormed) (hsame : ∀ t ∈ tables, t.headers = headers)
    (rows : List Row) :
    tables.foldl extend ⟨headers, rows⟩ = ⟨headers, rows ++ tables.flatMap (·.rows)⟩ := by
  induction tables generalizing rows with
  | nil => simp
  | cons first rest ih =>
    rw [List.foldl_cons, extend_of_same (hw first (by simp)) (hsame first (by simp)),
      ih (fun t ht => hw t (by simp [ht])) (fun t ht => hsame t (by simp [ht])),
      List.flatMap_cons, List.append_assoc]

/-! Renaming. -/

/-- Without renames nothing is renamed. -/
@[simp] theorem rename_empty (t : Table) : t.rename Dict.empty = t := by
  have hkept : ((t.headers.map fun h => (h, target Dict.empty h)).all fun m => m.1 == m.2) =
      true := by
    simp [target]
  simp only [rename, hkept, if_true]

/-- After a fold every column met so far is there, and none but those. -/
private theorem contains_foldl_fold (source : Row) (moves : List (String × String)) (out : Row)
    (h : String) :
    (moves.foldl (fold source) out).contains h = true ↔
      out.contains h = true ∨ h ∈ moves.map (·.2) := by
  induction moves generalizing out with
  | nil => simp
  | cons move rest ih =>
    rw [List.foldl_cons, ih]
    unfold fold
    by_cases hcell : rowCell out move.2 = ""
    · rw [if_pos hcell, Dict.contains_insert, Bool.or_eq_true, decide_eq_true_iff]
      simp only [List.map_cons, List.mem_cons]
      grind
    · rw [if_neg hcell]
      have hthere : out.contains move.2 = true := by
        by_cases hget : out.get? move.2 = none
        · simp [rowCell, hget] at hcell
        · simpa [Dict.contains, Option.isSome_iff_ne_none] using hget
      simp only [List.map_cons, List.mem_cons]
      grind

theorem contains_renameRow (moves : List (String × String)) (row : Row) (h : String) :
    (renameRow moves row).contains h = true ↔ h ∈ moves.map (·.2) := by
  unfold renameRow
  rw [contains_foldl_fold, contains_ofList]
  simp only [List.map_map, List.mem_map, List.mem_filter, Function.comp]
  constructor
  · rintro (⟨move, ⟨hmove, -⟩, rfl⟩ | ⟨move, ⟨hmove, -⟩, rfl⟩)
    · exact ⟨move, hmove, rfl⟩
    · exact ⟨move, hmove, rfl⟩
  · rintro ⟨move, hmove, rfl⟩
    by_cases hsame : move.1 = move.2
    · exact Or.inl ⟨move, ⟨hmove, by simp [hsame]⟩, rfl⟩
    · exact Or.inr ⟨move, ⟨hmove, by simp [hsame]⟩, rfl⟩

theorem WellFormed.rename {t : Table} (h : t.WellFormed) (renames : Dict String) :
    (t.rename renames).WellFormed := by
  simp only [Table.rename]
  split
  · exact h
  · refine ⟨(withHeaders_wellFormed _).headers_nodup, ?_⟩
    intro row hrow other
    obtain ⟨old, -, rfl⟩ := List.mem_map.mp hrow
    rw [contains_renameRow, mem_withHeaders]

end Collate.Table
