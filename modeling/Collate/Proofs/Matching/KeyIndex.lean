import Collate.Matching.KeyIndex
import Collate.Proofs.Matching.Rule
import Collate.Proofs.Table.WellFormed

/-!
An index answers like a walk through all rows. Building it appends each row to
the group of its compared form, so a group holds the positions of the rows with
that form in increasing order; a blank value has no form and finds nothing.
-/

namespace Collate

namespace MatchRule

@[simp] theorem form?_empty (rule : MatchRule) : rule.form? "" = none := by
  have htrim : Text.trim "" = "" := by decide
  cases htrims : rule.trims with
  | true => simp [form?, htrims, htrim, Text.isBlankText]
  | false => simp [form?, htrims, Text.isBlankText]

theorem agrees_of_form {rule : MatchRule} {value form : String}
    (h : rule.form? value = some form) (cell : String) :
    rule.agrees value cell = decide (rule.form? cell = some form) := by
  rw [agrees, h]
  cases hcell : rule.form? cell with
  | none => simp
  | some other =>
    rw [Bool.eq_iff_iff]
    simp only [Option.isSome_some, Bool.true_and, beq_iff_eq, Option.some.injEq,
      decide_eq_true_iff]
    exact eq_comm

/-- A blank value agrees with nothing. -/
theorem agrees_of_blank {rule : MatchRule} {value : String} (h : rule.form? value = none)
    (cell : String) : rule.agrees value cell = false := by
  simp [agrees, h]

end MatchRule

namespace KeyIndex

def positionsOf (rule : MatchRule) (column form : String) (entries : List (Row × Nat)) :
    List Nat :=
  (entries.filter fun (row, _) => rule.form? (Table.rowCell row column) = some form).map (·.2)

/-- A missing cell has no form, as an empty one has none. -/
private theorem bind_form (rule : MatchRule) (row : Row) (column : String) :
    (row.get? column).bind rule.form? = rule.form? (Table.rowCell row column) := by
  cases hcell : row.get? column with
  | none => simp [Table.rowCell, hcell]
  | some value => simp [Table.rowCell, hcell]

/-- What adding one row does to a group. -/
theorem add_group (rule : MatchRule) (column form : String) (groups : Dict (List Nat))
    (entry : Row × Nat) :
    ((add rule column groups entry).get? form).getD [] =
      (groups.get? form).getD [] ++ positionsOf rule column form [entry] := by
  unfold add
  rw [bind_form]
  cases hform : rule.form? (Table.rowCell entry.1 column) with
  | none => simp [positionsOf, hform]
  | some other =>
    rw [Dict.get?_insert]
    by_cases heq : other = form
    · subst heq
      simp [positionsOf, hform]
    · simp [positionsOf, hform, heq]

/-- Adding rows appends to each group the positions of the rows with its
form. -/
theorem foldl_add_group (rule : MatchRule) (column form : String) (entries : List (Row × Nat))
    (groups : Dict (List Nat)) :
    ((entries.foldl (add rule column) groups).get? form).getD [] =
      (groups.get? form).getD [] ++ positionsOf rule column form entries := by
  induction entries generalizing groups with
  | nil => simp [positionsOf]
  | cons entry rest ih =>
    rw [List.foldl_cons, ih, add_group, List.append_assoc]
    congr 1
    simp only [positionsOf, ← List.map_append, ← List.filter_append, List.singleton_append]

/-- Looking a value up in the index of a column finds the rows whose cell
agrees with it, in order. -/
theorem lookup_build (rule : MatchRule) {t : Table} (hw : t.WellFormed) (column value : String) :
    (build rule t column).lookup rule value = t.positionsMatching rule column value := by
  unfold lookup Table.positionsMatching
  cases hform : rule.form? value with
  | none =>
    have hnone : (t.rows.zipIdx.filter fun (row, _) =>
        rule.agrees value (Table.rowCell row column)) = [] := by
      rw [List.filter_eq_nil_iff]
      intro entry _
      simp [MatchRule.agrees_of_blank hform]
    simp [hnone]
  | some form =>
    have hagrees : t.positionsMatching rule column value =
        positionsOf rule column form t.rows.zipIdx := by
      simp [Table.positionsMatching, positionsOf, MatchRule.agrees_of_form hform]
    unfold Table.positionsMatching at hagrees
    simp only [hagrees, build]
    by_cases hcolumn : column ∈ t.headers
    · rw [if_pos (by simpa using hcolumn), foldl_add_group]
      simp
    · rw [if_neg (by simpa using hcolumn)]
      -- without the column every cell counts as empty, and empty cells have no form
      have hnone : positionsOf rule column form t.rows.zipIdx = [] := by
        unfold positionsOf
        rw [List.map_eq_nil_iff, List.filter_eq_nil_iff]
        intro entry hentry
        have hrow : entry.1 ∈ t.rows := (List.mem_zipIdx' hentry).2 ▸ List.getElem_mem _
        simp [Table.rowCell_of_not_mem (hw.cells entry.1 hrow) hcolumn]
      simp [hnone]

/-! Groups. -/

/-- A group is made when its first row is added. -/
theorem add_ne_nil {rule : MatchRule} {column : String} {groups : Dict (List Nat)}
    (h : ∀ form, groups.get? form ≠ some []) (entry : Row × Nat) (form : String) :
    (add rule column groups entry).get? form ≠ some [] := by
  unfold add
  split
  · rename_i other _
    rw [Dict.get?_insert]
    by_cases heq : other = form
    · simp [heq]
    · rw [if_neg heq]
      exact h form
  · exact h form

theorem build_ne_nil (rule : MatchRule) (t : Table) (column form : String) :
    (build rule t column).groups.get? form ≠ some [] := by
  have hfold : ∀ (entries : List (Row × Nat)) (groups : Dict (List Nat)),
      (∀ form, groups.get? form ≠ some []) →
      ∀ form, (entries.foldl (add rule column) groups).get? form ≠ some [] := by
    intro entries
    induction entries with
    | nil => exact fun _ h => h
    | cons entry rest ih => exact fun groups h => ih _ (add_ne_nil h entry)
  unfold build
  split
  · exact hfold _ _ (by simp) form
  · simp

/-- A group is that of some row. -/
theorem exists_form_of_group {rule : MatchRule} {t : Table} {column form : String}
    {group : List Nat} (h : (build rule t column).groups.get? form = some group) :
    ∃ value, rule.form? value = some form := by
  have hne : group ≠ [] := fun hnil => build_ne_nil rule t column form (hnil ▸ h)
  unfold build at h
  split at h
  · have hgroup := foldl_add_group rule column form t.rows.zipIdx Dict.empty
    rw [h, Dict.get?_empty, Option.getD_some, Option.getD_none, List.nil_append] at hgroup
    obtain ⟨i, hi⟩ := List.exists_mem_of_ne_nil _ (hgroup ▸ hne)
    obtain ⟨entry, hentry, -⟩ := List.mem_map.mp hi
    exact ⟨_, of_decide_eq_true (List.mem_filter.mp hentry).2⟩
  · simp at h

end KeyIndex

/-- Going through the positions found is going through the rows that agree. -/
theorem Table.filterMap_positionsMatching {α : Type} (rule : MatchRule) (t : Table)
    (column value : String) (f : Row → α) :
    (t.positionsMatching rule column value).filterMap (fun i => (t.rows[i]?).map f) =
      (t.rows.filter fun row => rule.agrees value (rowCell row column)).map f := by
  have hgen : ∀ (before rows : List Row), t.rows = before ++ rows →
      (((rows.zipIdx before.length).filter fun (row, _) =>
        rule.agrees value (rowCell row column)).map (·.2)).filterMap
          (fun i => (t.rows[i]?).map f) =
      (rows.filter fun row => rule.agrees value (rowCell row column)).map f := by
    intro before rows
    induction rows generalizing before with
    | nil => intro _; rfl
    | cons row rest ih =>
      intro hrows
      have hhere : t.rows[before.length]? = some row := by simp [hrows]
      have hnext := ih (before ++ [row]) (by simp [hrows])
      rw [List.length_append, List.length_singleton] at hnext
      rw [List.zipIdx_cons]
      cases hagrees : rule.agrees value (rowCell row column) with
      | true =>
        simp only [List.filter_cons, hagrees, if_true, List.map_cons, List.filterMap_cons, hhere,
          Option.map_some, hnext]
      | false =>
        simp only [List.filter_cons, hagrees, Bool.false_eq_true, if_false]
        exact hnext
  exact hgen [] t.rows rfl

/-- No position is found exactly when no row agrees. -/
theorem Table.positionsMatching_eq_nil_iff (rule : MatchRule) (t : Table)
    (column value : String) :
    t.positionsMatching rule column value = [] ↔
      (t.rows.filter fun row => rule.agrees value (rowCell row column)) = [] := by
  have hfst : t.rows = t.rows.zipIdx.map (·.1) := by simp
  rw [Table.positionsMatching, List.map_eq_nil_iff, List.filter_eq_nil_iff,
    List.filter_eq_nil_iff]
  constructor
  · intro h row hrow
    rw [hfst] at hrow
    obtain ⟨entry, hentry, rfl⟩ := List.mem_map.mp hrow
    exact h entry hentry
  · intro h entry hentry
    refine h entry.1 ?_
    rw [hfst]
    exact List.mem_map_of_mem hentry

/-- The rows that agree are found in the order in which they stand. -/
theorem Table.positionsMatching_pairwise (rule : MatchRule) (t : Table) (column value : String) :
    (t.positionsMatching rule column value).Pairwise (· < ·) := by
  have hsub : (t.positionsMatching rule column value).Sublist (t.rows.zipIdx.map (·.2)) :=
    List.filter_sublist.map _
  refine List.Pairwise.sublist hsub ?_
  rw [List.zipIdx_map_snd]
  exact List.pairwise_lt_range'

theorem Table.mem_positionsMatching {rule : MatchRule} {t : Table} {column value : String}
    {i : Nat} : i ∈ t.positionsMatching rule column value ↔
      ∃ row, t.rows[i]? = some row ∧ rule.agrees value (rowCell row column) = true := by
  simp only [positionsMatching, List.mem_map, List.mem_filter, Prod.exists,
    List.mem_zipIdx_iff_getElem?, exists_eq_right]

namespace KeyIndex

/-- The cell of a row has a compared form, and it is that of the value. -/
theorem agrees_rowCell {rule : MatchRule} {row : Row} {column value : String} :
    rule.agrees value (Table.rowCell row column) = true ↔ ∃ cell form,
      row.get? column = some cell ∧ rule.form? cell = some form ∧
        rule.form? value = some form := by
  rw [Table.rowCell]
  cases hcell : row.get? column with
  | none => simp [MatchRule.agrees, Option.isSome_iff_ne_none]
  | some cell =>
    cases hvalue : rule.form? value with
    | none => simp [MatchRule.agrees_of_blank hvalue]
    | some form => simp [MatchRule.agrees_of_form hvalue, eq_comm]

theorem mem_lookup_build {rule : MatchRule} {t : Table} (hw : t.WellFormed)
    {column value : String} {i : Nat} : i ∈ (build rule t column).lookup rule value ↔
      ∃ row cell form, t.rows[i]? = some row ∧ row.get? column = some cell ∧
        rule.form? cell = some form ∧ rule.form? value = some form := by
  rw [lookup_build rule hw, Table.mem_positionsMatching]
  simp only [agrees_rowCell, exists_and_left]

/-- An index without groups finds nothing, and one with a group finds its rows by the cell of
any of them. -/
theorem isEmpty_build_iff {rule : MatchRule} {t : Table} (column : String) :
    (build rule t column).isEmpty = true ↔
      ∀ value, (build rule t column).lookup rule value = [] := by
  constructor
  · intro hempty value
    have hnone : ∀ form, (build rule t column).groups.get? form = none := by
      intro form
      rw [Dict.get?, List.isEmpty_iff.mp hempty]
      rfl
    unfold lookup
    split
    · simp [hnone]
    · rfl
  · intro h
    by_contra hne
    obtain ⟨⟨form, group⟩, hmem⟩ := List.exists_mem_of_ne_nil _ (mt List.isEmpty_iff.mpr hne)
    have hgroup : (build rule t column).groups.get? form = some group :=
      Dict.find_of_mem (Dict.keys_nodup _) hmem
    obtain ⟨value, hvalue⟩ := exists_form_of_group hgroup
    have hnil := h value
    rw [lookup, hvalue] at hnil
    simp only [hgroup, Option.getD_some] at hnil
    exact build_ne_nil rule t column form (hnil ▸ hgroup)

/-- An index answers like a walk through the rows: a value is looked up to the positions, in
increasing order, of the rows whose cell has the compared form that the value has. Blank values
and columns that the table lacks find nothing, and an index is empty if nothing can be found. -/
theorem build_exact (rule : MatchRule) {t : Table} (hw : t.WellFormed) (column : String) :
    (∀ value, ((build rule t column).lookup rule value).Pairwise (· < ·) ∧
      (∀ i, i ∈ (build rule t column).lookup rule value ↔ ∃ row cell form,
        t.rows[i]? = some row ∧ row.get? column = some cell ∧
          rule.form? cell = some form ∧ rule.form? value = some form) ∧
      (Text.isBlankText value = true ∨ column ∉ t.headers →
        (build rule t column).lookup rule value = [])) ∧
    ((build rule t column).isEmpty = true ↔
      ∀ value, (build rule t column).lookup rule value = []) := by
  refine ⟨fun value => ⟨?_, fun i => mem_lookup_build hw, ?_⟩, isEmpty_build_iff column⟩
  · rw [lookup_build rule hw]
    exact Table.positionsMatching_pairwise rule t column value
  · rintro (hblank | hcolumn)
    · simp [lookup, MatchRule.form?_eq, hblank]
    · have hhas : t.hasHeader column = false := by simpa [Table.hasHeader] using hcolumn
      unfold lookup
      split
      · simp [build, hhas]
      · rfl

def accounts : Table :=
  Table.ofRecords [[("acct", "A1")], [("acct", "")], [("acct", " a1")]]

/-- Blanks around a value and its case do not matter, and a blank value finds nothing. -/
theorem build_exact_accounts : accounts.WellFormed ∧
    2 ∈ (build .tolerant accounts "acct").lookup .tolerant "A1 " ∧
    (build .tolerant accounts "acct").lookup .tolerant "" = [] ∧
    (build .tolerant accounts "acct").isEmpty = false := by
  have hw : accounts.WellFormed := Table.ofRecords_wellFormed _
  obtain ⟨hlookup, hempty⟩ := build_exact .tolerant hw "acct"
  have hmem : 2 ∈ (build .tolerant accounts "acct").lookup .tolerant "A1 " :=
    ((hlookup "A1 ").2.1 2).mpr ⟨Dict.ofList [("acct", " a1")], " a1", "a1", by decide +kernel⟩
  refine ⟨hw, hmem, (hlookup "").2.2 (.inl rfl), ?_⟩
  rw [Bool.eq_false_iff, ne_eq, hempty]
  intro hnil
  rw [hnil "A1 "] at hmem
  cases hmem

end KeyIndex

end Collate
