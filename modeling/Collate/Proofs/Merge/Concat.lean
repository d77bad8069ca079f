import Collate.Proofs.Merge.Join
import Collate.Proofs.Table.Growth

/-!
Merged tables one after the other. The result has the columns of all parts as they
come, with the provenance columns behind them, and every row keeps its own cells and
is empty elsewhere. How the parts are grouped on the way does not matter: putting
groups together first brings the same columns in the same order and fills the same
cells.
-/

namespace Collate.Merged

/-! What is promised. -/

/-- Merged tables that merging made, or putting others one after the other. -/
inductive Made : Merged → Prop
  | merge {plan : JoinPlan} {rule : MatchRule} {primary : Table} {attachments : List Table}
      {m : Merged} (h : merge plan rule primary attachments = .ok m) : Made m
  | concat {parts : List Merged} (h : ∀ m ∈ parts, Made m) : Made (concat parts)

/-- The columns of parts as they come, provenance left out. -/
def plainHeaders (parts : List Merged) : List String :=
  ((parts.flatMap (·.table.headers)).filter fun h => !isProvenance h).eraseDups

/-- The columns of parts as they come, provenance last. -/
def allHeaders (parts : List Merged) : List String :=
  plainHeaders parts ++ [joinKeyColumn, joinValueColumn]

variable {parts : List Merged}

/-! Headers. -/

theorem mem_plainHeaders {h : String} :
    h ∈ plainHeaders parts ↔ (∃ m ∈ parts, h ∈ m.table.headers) ∧ isProvenance h = false := by
  simp only [plainHeaders, List.mem_eraseDups, List.mem_filter, List.mem_flatMap,
    Bool.not_eq_true']

theorem mem_allHeaders {m : Merged} (hm : m ∈ parts) {h : String} (hh : h ∈ m.table.headers) :
    h ∈ allHeaders parts := by
  apply List.mem_append.mpr
  cases hprov : isProvenance h with
  | false => exact Or.inl (mem_plainHeaders.mpr ⟨⟨m, hm, hh⟩, hprov⟩)
  | true => exact Or.inr (mem_provenance_iff.mpr hprov)

/-- Without the provenance columns behind them plain headers are left. -/
theorem filter_plain {plain : List String} (hplain : ∀ h ∈ plain, isProvenance h = false) :
    (plain ++ [joinKeyColumn, joinValueColumn]).filter (fun h => !isProvenance h) = plain := by
  have hkept : plain.filter (fun h => !isProvenance h) = plain :=
    List.filter_eq_self.mpr fun h hh => by simp [hplain h hh]
  have hdropped : [joinKeyColumn, joinValueColumn].filter (fun h => !isProvenance h) = [] := by
    decide
  rw [List.filter_append, hkept, hdropped, List.append_nil]

/-- The headers that putting tables together starts from. -/
theorem withHeaders_allHeaders (parts : List Merged) :
    Table.withHeaders ((parts.flatMap (·.table.headers)).filter (fun h => !isProvenance h) ++
      [joinKeyColumn, joinValueColumn]) = ⟨allHeaders parts, []⟩ := by
  have hnodup : [joinKeyColumn, joinValueColumn].Nodup := by decide
  rw [Table.withHeaders_eq, ← eraseDups_append_eraseDups, allHeaders, ← plainHeaders]
  congr 1
  apply eraseDups_of_nodup
  rw [List.nodup_append]
  refine ⟨nodup_eraseDups _, hnodup, ?_⟩
  rintro h hh other hother rfl
  have hprov := mem_provenance_iff.mp hother
  simp [(mem_plainHeaders.mp hh).2] at hprov

/-! Rows. -/

/-- Parts are put one after the other, filled up. -/
theorem concat_eq (hne : parts ≠ []) (hw : ∀ m ∈ parts, m.table.WellFormed) :
    concat parts = ⟨⟨allHeaders parts,
      parts.flatMap fun m => m.table.rows.map (Table.fill (allHeaders parts))⟩⟩ := by
  have hstart := Table.withHeaders_wellFormed
    ((parts.flatMap (·.table.headers)).filter (fun h => !isProvenance h) ++
      [joinKeyColumn, joinValueColumn])
  have htables : ∀ t ∈ parts.map (·.table), t.WellFormed := by
    intro t ht
    obtain ⟨m, hm, rfl⟩ := List.mem_map.mp ht
    exact hw m hm
  have hempty : parts.isEmpty = false := List.isEmpty_eq_false_iff.mpr hne
  -- the parts bring no header that is not there
  have hsame : (allHeaders parts ++ parts.flatMap (·.table.headers)).eraseDups =
      allHeaders parts := by
    rw [withHeaders_allHeaders] at hstart
    rw [eraseDups_append_of_subset, eraseDups_of_nodup hstart.headers_nodup]
    intro h hh
    obtain ⟨m, hm, hh⟩ := List.mem_flatMap.mp hh
    exact mem_allHeaders hm hh
  simp only [concat, hempty, Bool.false_eq_true, if_false]
  rw [hstart.foldl_extend_eq htables, withHeaders_allHeaders]
  simp only [Table.grown, List.flatMap_map, hsame, List.nil_append, List.map_flatMap]

theorem concat_wellFormed (hw : ∀ m ∈ parts, m.table.WellFormed) :
    (concat parts).table.WellFormed := by
  unfold concat
  split
  · exact Table.empty_wellFormed
  · apply (Table.withHeaders_wellFormed _).foldl_extend
    intro t ht
    obtain ⟨m, hm, rfl⟩ := List.mem_map.mp ht
    exact hw m hm

theorem Made.wellFormed {m : Merged} (h : m.Made) : m.table.WellFormed := by
  induction h with
  | concat _ ih => exact concat_wellFormed ih
  | merge h =>
    rw [eq_ofJoin_of_merge h]
    exact ofJoin_wellFormed _ _ _ _

/-- A row that is filled up to more headers keeps its cells and is empty elsewhere. -/
theorem fill_eq_rowOf {t : Table} (hw : t.WellFormed) {headers : List String}
    (hall : ∀ h ∈ t.headers, h ∈ headers) {row : Row} (hrow : row ∈ t.rows) :
    Table.fill headers row =
      Table.rowOf headers fun h => if t.hasHeader h then Table.rowCell row h else "" := by
  apply Dict.ext_get?
  intro h
  rw [Table.get?_fill, Table.get?_of_fits (hw.cells row hrow), Table.get?_rowOf]
  by_cases hh : h ∈ t.headers
  · simp [hh, hall h hh]
  · simp [hh]

/-! Groups. -/

variable {groups : List (List Merged)}

theorem plainHeaders_concat (hw : ∀ m ∈ parts, m.table.WellFormed) :
    (concat parts).table.headers.filter (fun h => !isProvenance h) = plainHeaders parts := by
  cases parts with
  | nil => rfl
  | cons first rest =>
    rw [concat_eq (List.cons_ne_nil first rest) hw]
    exact filter_plain fun h hh => (mem_plainHeaders.mp hh).2

/-- Groups that are put together first bring the same headers. -/
theorem allHeaders_map_concat (hw : ∀ group ∈ groups, ∀ m ∈ group, m.table.WellFormed) :
    allHeaders (groups.map concat) = allHeaders groups.flatten := by
  have hgroups : (groups.map concat).flatMap (fun m =>
        m.table.headers.filter fun h => !isProvenance h) =
      groups.flatMap plainHeaders := by
    rw [List.flatMap_map]
    exact List.flatMap_congr fun group hgroup => plainHeaders_concat (hw group hgroup)
  have hparts : groups.flatten.flatMap (fun m =>
        m.table.headers.filter fun h => !isProvenance h) =
      groups.flatMap fun group =>
        (group.flatMap (·.table.headers)).filter fun h => !isProvenance h := by
    rw [List.flatten_eq_flatMap, List.flatMap_assoc]
    exact List.flatMap_congr fun group _ => List.filter_flatMap.symm
  rw [allHeaders, allHeaders]
  congr 1
  rw [plainHeaders, plainHeaders, List.filter_flatMap, List.filter_flatMap, hgroups, hparts]
  exact eraseDups_flatMap_eraseDups groups _

/-- Groups that are put together first bring the same rows. -/
theorem rows_concat_filled (hw : ∀ m ∈ parts, m.table.WellFormed) {headers : List String}
    (hall : ∀ h ∈ (concat parts).table.headers, h ∈ headers) :
    (concat parts).table.rows.map (Table.fill headers) =
      parts.flatMap fun m => m.table.rows.map (Table.fill headers) := by
  cases parts with
  | nil => rfl
  | cons first rest =>
    rw [concat_eq (List.cons_ne_nil first rest) hw] at hall ⊢
    rw [List.map_flatMap]
    apply List.flatMap_congr
    intro m _
    rw [List.map_map]
    exact List.map_congr_left fun row _ => Table.fill_fill hall row

/-- Putting the groups together and then the results is putting all parts together at
once. -/
theorem concat_map_concat (hne : groups.flatten ≠ [])
    (hw : ∀ group ∈ groups, ∀ m ∈ group, m.table.WellFormed) :
    concat (groups.map concat) = concat groups.flatten := by
  have hgroups : groups.map concat ≠ [] := by
    rintro hnil
    simp [List.map_eq_nil_iff.mp hnil] at hne
  have hconcats : ∀ m ∈ groups.map concat, m.table.WellFormed := by
    intro m hm
    obtain ⟨group, hgroup, rfl⟩ := List.mem_map.mp hm
    exact concat_wellFormed (hw group hgroup)
  have hflat : ∀ m ∈ groups.flatten, m.table.WellFormed := by
    intro m hm
    obtain ⟨group, hgroup, hm⟩ := List.mem_flatten.mp hm
    exact hw group hgroup m hm
  have hrows : groups.flatten.flatMap (fun m =>
        m.table.rows.map (Table.fill (allHeaders groups.flatten))) =
      groups.flatMap fun group => group.flatMap fun m =>
        m.table.rows.map (Table.fill (allHeaders groups.flatten)) := by
    rw [List.flatten_eq_flatMap, List.flatMap_assoc]
    rfl
  rw [concat_eq hgroups hconcats, concat_eq hne hflat, allHeaders_map_concat hw, hrows,
    List.flatMap_map]
  congr 2
  apply List.flatMap_congr
  intro group hgroup
  apply rows_concat_filled (hw group hgroup)
  intro h hh
  rw [← allHeaders_map_concat hw]
  exact mem_allHeaders (List.mem_map_of_mem hgroup) hh

/-- Merged tables may be put one after the other group by group or all at once, as long
as there is one. The columns are those of all parts as they come and then the two
provenance columns, and the rows are those of the parts in order, each with its own
cells, and empty ones under headers that its part lacks. -/
theorem concat_groups (hne : groups.flatten ≠ [])
    (hmade : ∀ group ∈ groups, ∀ m ∈ group, m.Made) :
    concat (groups.map concat) = concat groups.flatten ∧
    (concat groups.flatten).table.headers =
      ((groups.flatten.flatMap (·.table.headers)).filter fun h => !isProvenance h).eraseDups ++
        [joinKeyColumn, joinValueColumn] ∧
    (concat groups.flatten).table.rows = groups.flatten.flatMap fun m =>
      m.table.rows.map fun row => Table.rowOf (concat groups.flatten).table.headers fun h =>
        if m.table.hasHeader h then Table.rowCell row h else "" := by
  have hflat : ∀ m ∈ groups.flatten, m.table.WellFormed := by
    intro m hm
    obtain ⟨group, hgroup, hm⟩ := List.mem_flatten.mp hm
    exact (hmade group hgroup m hm).wellFormed
  refine ⟨concat_map_concat hne fun group hgroup m hm => (hmade group hgroup m hm).wellFormed,
    ?_, ?_⟩
  · rw [concat_eq hne hflat]
    rfl
  · rw [concat_eq hne hflat]
    apply List.flatMap_congr
    intro m hm
    apply List.map_congr_left
    intro row hrow
    exact fill_eq_rowOf (hflat m hm) (fun h hh => mem_allHeaders hm hh) hrow

/-- The first part has a provenance column in the middle, since its primary table had one.
It comes twice, in two groups with an empty one between them, and the other part has a
shared column elsewhere and a new one in front. -/
theorem concat_groups_provenance_inside :
    let plan := JoinPlan.ofKeys .singleSource ["id"]
    let part := fun primary attachment =>
      ofJoin .tolerant (usableKeys plan) primary (combined plan .tolerant [attachment])
    let first := part (Table.ofRecords [[("id", "1"), ("_join_key", "x"), ("name", "A")]])
      (Table.ofRecords [[("id", "1 "), ("dept", "law")]])
    let second := part (Table.ofRecords [[("town", "N"), ("id", "2")]])
      (Table.ofRecords [[("id", "9"), ("name", "Z")]])
    let groups := [[first], [], [second, first]]
    groups.flatten ≠ [] ∧ (∀ group ∈ groups, ∀ m ∈ group, m.Made) ∧
      first.table.headers = ["id", "_join_key", "name", "dept", "_join_value"] ∧
      concat (groups.map concat) = concat groups.flatten ∧
      (concat groups.flatten).table.headers =
        ["id", "name", "dept", "town", "_join_key", "_join_value"] ∧
      (concat groups.flatten).table.rows.map (fun row =>
          (concat groups.flatten).table.headers.map row.get?) =
        [[some "1", some "A", some "law", some "", some "id", some "1"],
          [some "2", some "", some "", some "N", some "unmatched", some ""],
          [some "1", some "A", some "law", some "", some "id", some "1"]] := by
  intro plan part first second groups
  have hkeys : usableKeys plan ≠ [] := by decide +kernel
  have hmade : ∀ primary attachment, (part primary attachment).Made :=
    fun primary attachment => Made.merge (merge_singleSource _ primary [attachment] rfl hkeys)
  have hne : groups.flatten ≠ [] := List.cons_ne_nil first [second, first]
  have hall : ∀ group ∈ groups, ∀ m ∈ group, m.Made := by
    simp only [groups, List.forall_mem_cons, List.not_mem_nil, false_implies, implies_true,
      and_true, true_and]
    exact ⟨hmade _ _, hmade _ _, hmade _ _⟩
  exact ⟨hne, hall, by decide +kernel, (concat_groups hne hall).1, by decide +kernel,
    by decide +kernel⟩

end Collate.Merged
