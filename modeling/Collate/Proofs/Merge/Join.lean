import Collate.Merge.Join
import Collate.Proofs.Matching.KeyIndex
import Collate.Proofs.Text.Blank

/-!
Merging is a left outer join by nested loops. The reference below goes, for each
primary row and each key in order, through all attachment rows; it states the
headers of the result and every cell of it outright. The merge that runs agrees
with it on all well-formed tables, although it looks rows up in an index per key
and builds rows by overwriting cells.
-/

namespace Collate

namespace Table

/-! The tables that are joined stay well formed. -/

theorem stack_wellFormed {tables : List Table} (h : ∀ t ∈ tables, t.WellFormed) :
    (stack tables).WellFormed := by
  cases tables with
  | nil => exact empty_wellFormed
  | cons first rest =>
    rw [List.forall_mem_cons] at h
    exact h.1.foldl_extend h.2

/-- Tables with the same headers are put on top of each other as they stand. -/
theorem stack_of_same {headers : List String} {tables : List Table} (hne : tables ≠ [])
    (hw : ∀ t ∈ tables, t.WellFormed) (hsame : ∀ t ∈ tables, t.headers = headers) :
    stack tables = ⟨headers, tables.flatMap (·.rows)⟩ := by
  cases tables with
  | nil => exact absurd rfl hne
  | cons first rest =>
    have hfirst : first = ⟨headers, first.rows⟩ :=
      congrArg (Table.mk · first.rows) (hsame first (by simp))
    rw [stack, hfirst, foldl_extend_of_same (fun t ht => hw t (by simp [ht]))
      (fun t ht => hsame t (by simp [ht])), List.flatMap_cons]

theorem leftJoin_wellFormed (rule : MatchRule) (key : String) (left right : Table) :
    (leftJoin rule key left right).WellFormed :=
  (withHeaders_wellFormed _).foldl_pushRow _

theorem chain_wellFormed (rule : MatchRule) (key : String) {tables : List Table}
    (h : ∀ t ∈ tables, t.WellFormed) : (chain rule key tables).WellFormed := by
  unfold chain
  cases hkept : tables.dropWhile isEmpty with
  | nil => exact empty_wellFormed
  | cons first rest =>
    have hfirst : first.WellFormed :=
      h first ((List.dropWhile_sublist _).subset (by rw [hkept]; simp))
    clear hkept h
    induction rest generalizing first with
    | nil => exact hfirst
    | cons next others ih => exact ih _ (leftJoin_wellFormed rule key first next)

theorem get?_extendRow (headers : List String) (row source : Row) (h : String) :
    (extendRow headers row source).get? h =
      if h ∈ headers then some (rowCell source h) else row.get? h := by
  unfold extendRow
  induction headers generalizing row with
  | nil => simp
  | cons header rest ih =>
    rw [List.foldl_cons, ih, Dict.get?_insert]
    by_cases hrest : h ∈ rest
    · simp [hrest]
    · by_cases heq : header = h
      · subst heq
        simp [hrest]
      · simp [hrest, heq, Ne.symm heq]

end Table

theorem get?_markRow (key value : String) (row : Row) (h : String) :
    (markRow key value row).get? h =
      if h = joinKeyColumn then some key
      else if h = joinValueColumn then some value
      else row.get? h := by
  have hne : joinValueColumn ≠ joinKeyColumn := by decide
  rw [markRow, Dict.get?_insert, Dict.get?_insert]
  by_cases hvalue : h = joinValueColumn
  · subst hvalue
    simp [hne]
  · by_cases hkey : h = joinKeyColumn
    · subst hkey
      simp [hne]
    · simp [Ne.symm hvalue, Ne.symm hkey, hvalue, hkey]

theorem isProvenance_iff (h : String) :
    isProvenance h = true ↔ h = joinKeyColumn ∨ h = joinValueColumn := by
  simp [isProvenance]

theorem mem_provenance_iff {h : String} :
    h ∈ [joinKeyColumn, joinValueColumn] ↔ isProvenance h = true := by
  simp [isProvenance]

namespace Merged

theorem ofJoin_wellFormed (rule : MatchRule) (keys : List String) (primary attachments : Table) :
    (ofJoin rule keys primary attachments).table.WellFormed :=
  (Table.withHeaders_wellFormed _).foldl_pushRow _

/-! The reference. -/

/-- The headers of a joined table: those of the primary table, those that the
attachments bring, and the provenance columns that are not there yet. -/
def joinedHeaders (primary attachments : Table) : List String :=
  primary.headers ++ broughtHeaders primary attachments ++
    [joinKeyColumn, joinValueColumn].filter fun h => !primary.hasHeader h

/-- The cell of a joined row: provenance on top, then the cell of the primary
row, then that of the matching attachment row, if there is one. -/
def joinedCell (primary : Table) (key value : String) (row : Row) (other : Option Row)
    (header : String) : String :=
  if header = joinKeyColumn then key
  else if header = joinValueColumn then value
  else if primary.hasHeader header then Table.rowCell row header
  else (other.map fun o => Table.rowCell o header).getD ""

def joinedRow (primary attachments : Table) (key value : String) (row : Row)
    (other : Option Row) : Row :=
  Dict.ofList ((joinedHeaders primary attachments).map fun h =>
    (h, joinedCell primary key value row other h))

/-- The attachment rows that agree with a row on a key. -/
def agreeing (rule : MatchRule) (attachments : Table) (row : Row) (key : String) : List Row :=
  attachments.rows.filter fun other =>
    rule.agrees (Table.rowCell row key) (Table.rowCell other key)

/-- What a primary row becomes: one row for each attachment row that agrees
with it on the first key on which any does, or one row without a match. -/
def nestedRows (rule : MatchRule) (keys : List String) (primary attachments : Table)
    (row : Row) : List Row :=
  match keys.find? fun key => !(agreeing rule attachments row key).isEmpty with
  | some key =>
    (agreeing rule attachments row key).map fun other =>
      joinedRow primary attachments key (Table.rowCell row key) row (some other)
  | none => [joinedRow primary attachments unmatched "" row none]

def nestedLoop (rule : MatchRule) (keys : List String) (primary attachments : Table) : Merged :=
  ⟨⟨joinedHeaders primary attachments,
    primary.rows.flatMap (nestedRows rule keys primary attachments)⟩⟩

variable {rule : MatchRule} {primary attachments : Table}

/-! Headers. -/

theorem mem_broughtHeaders {h : String} :
    h ∈ broughtHeaders primary attachments ↔
      h ∈ attachments.headers ∧ h ∉ primary.headers ∧ isProvenance h = false := by
  simp only [broughtHeaders, Table.newHeaders, Table.hasHeader, List.mem_filter,
    Bool.not_eq_true', List.contains_eq_mem, decide_eq_false_iff_not, and_assoc]

theorem plainHeaders_nodup (hp : primary.WellFormed) (ha : attachments.WellFormed) :
    (primary.headers ++ broughtHeaders primary attachments).Nodup := by
  rw [List.nodup_append]
  refine ⟨hp.headers_nodup, (ha.headers_nodup.filter _).filter _, ?_⟩
  intro h hh other hother heq
  exact (mem_broughtHeaders.mp hother).2.1 (heq ▸ hh)

theorem mem_joinedHeaders {h : String} :
    h ∈ joinedHeaders primary attachments ↔
      h ∈ primary.headers ∨ h ∈ broughtHeaders primary attachments ∨ isProvenance h = true := by
  simp only [joinedHeaders, List.mem_append, List.mem_filter, List.mem_cons, List.not_mem_nil,
    or_false, Bool.not_eq_true', Table.hasHeader, isProvenance, Bool.or_eq_true, beq_iff_eq]
  by_cases hh : h ∈ primary.headers
  · simp [hh]
  · simp [hh]

/-- The headers that the merge starts from are those of the reference. -/
theorem withHeaders_joined (hp : primary.WellFormed) (ha : attachments.WellFormed) :
    Table.withHeaders (primary.headers ++ broughtHeaders primary attachments ++
      [joinKeyColumn, joinValueColumn]) = ⟨joinedHeaders primary attachments, []⟩ := by
  have hplain := Table.withHeaders_of_nodup (plainHeaders_nodup hp ha)
  have hsplit : Table.withHeaders (primary.headers ++ broughtHeaders primary attachments ++
      [joinKeyColumn, joinValueColumn]) =
      (Table.withHeaders (primary.headers ++ broughtHeaders primary attachments)).addHeaders
        [joinKeyColumn, joinValueColumn] := List.foldl_append
  have hnodup : [joinKeyColumn, joinValueColumn].Nodup := by decide
  have hheaders := Table.addHeaders_headers
    (⟨primary.headers ++ broughtHeaders primary attachments, []⟩ : Table) hnodup
  have hrows := Table.withHeaders_rows (primary.headers ++ broughtHeaders primary attachments ++
      [joinKeyColumn, joinValueColumn])
  -- no brought header is a provenance column
  have hnew : ([joinKeyColumn, joinValueColumn].filter fun h =>
        !(⟨primary.headers ++ broughtHeaders primary attachments, []⟩ : Table).hasHeader h) =
      [joinKeyColumn, joinValueColumn].filter fun h => !primary.hasHeader h := by
    apply List.filter_congr
    intro h hh
    have hprov := mem_provenance_iff.mp hh
    have hnot : h ∉ broughtHeaders primary attachments := fun hmem => by
      simp [(mem_broughtHeaders.mp hmem).2.2] at hprov
    simp [Table.hasHeader, hnot]
  rw [hsplit, hplain] at hrows ⊢
  rw [hnew] at hheaders
  exact Table.mk.injEq .. |>.mpr ⟨hheaders, hrows⟩

theorem joinedHeaders_nodup (hp : primary.WellFormed) (ha : attachments.WellFormed) :
    (joinedHeaders primary attachments).Nodup := by
  have hstart := (Table.withHeaders_wellFormed (primary.headers ++
    broughtHeaders primary attachments ++ [joinKeyColumn, joinValueColumn])).headers_nodup
  rwa [withHeaders_joined hp ha] at hstart

/-! Rows. -/

/-- A row whose plain cells are those of the reference becomes the row of the
reference when it is marked and filled up. -/
theorem fill_markRow {key value : String} {row plain : Row} {other : Option Row}
    (hcontained : ∀ h, plain.contains h = true → h ∈ joinedHeaders primary attachments)
    (hplain : ∀ h ∈ joinedHeaders primary attachments, isProvenance h = false →
      Table.rowCell plain h = joinedCell primary key value row other h) :
    Table.fill (joinedHeaders primary attachments) (markRow key value plain) =
      joinedRow primary attachments key value row other := by
  apply Dict.ext_get?
  intro h
  rw [Table.get?_fill, get?_markRow, joinedRow, Dict.get?_ofList_map]
  by_cases hprov : isProvenance h = true
  · have hmem : h ∈ joinedHeaders primary attachments :=
      mem_joinedHeaders.mpr (Or.inr (Or.inr hprov))
    rcases (isProvenance_iff h).mp hprov with rfl | rfl
    · simp [joinedCell, hmem]
    · have hne : joinValueColumn ≠ joinKeyColumn := by decide
      simp [joinedCell, hmem, hne]
  · simp only [isProvenance_iff, not_or] at hprov
    rw [if_neg hprov.1, if_neg hprov.2]
    by_cases hmem : h ∈ joinedHeaders primary attachments
    · have hcell := hplain h hmem (by simpa [isProvenance] using hprov)
      rw [if_pos hmem, if_pos hmem, ← hcell, Table.rowCell]
      cases plain.get? h with
      | none => rfl
      | some found => rfl
    · have hnone : plain.get? h = none := by
        have hnot : plain.contains h ≠ true := fun hc => hmem (hcontained h hc)
        simpa [Dict.contains] using hnot
      simp [hmem, hnone]

/-- The row of a match. -/
theorem fill_matched (hp : primary.WellFormed) {row : Row} (hrow : row ∈ primary.rows)
    (key value : String) (other : Row) :
    Table.fill (joinedHeaders primary attachments) (markRow key value
      (Table.extendRow (broughtHeaders primary attachments) row other)) =
      joinedRow primary attachments key value row (some other) := by
  apply fill_markRow
  · intro h hc
    rw [← Dict.get?_isSome, Table.get?_extendRow] at hc
    split at hc
    · rename_i hbrought
      exact mem_joinedHeaders.mpr (Or.inr (Or.inl hbrought))
    · exact mem_joinedHeaders.mpr (Or.inl ((hp.cells row hrow h).mp hc))
  · intro h hmem hprov
    have hne : h ≠ joinKeyColumn ∧ h ≠ joinValueColumn := by
      simpa [isProvenance] using hprov
    rw [Table.rowCell, Table.get?_extendRow, joinedCell, if_neg hne.1, if_neg hne.2]
    by_cases hbrought : h ∈ broughtHeaders primary attachments
    · have hnot : h ∉ primary.headers := (mem_broughtHeaders.mp hbrought).2.1
      simp [hbrought, hnot, Table.hasHeader]
    · have hprimary : h ∈ primary.headers := by
        rcases mem_joinedHeaders.mp hmem with hprimary | hbrought' | hprov'
        · exact hprimary
        · exact absurd hbrought' hbrought
        · simp [hprov] at hprov'
      simp [hbrought, hprimary, Table.hasHeader, Table.rowCell]

/-- The row without a match. -/
theorem fill_unmatched (hp : primary.WellFormed) {row : Row} (hrow : row ∈ primary.rows)
    (key value : String) :
    Table.fill (joinedHeaders primary attachments) (markRow key value row) =
      joinedRow primary attachments key value row none := by
  apply fill_markRow
  · intro h hc
    exact mem_joinedHeaders.mpr (Or.inl ((hp.cells row hrow h).mp hc))
  · intro h _ hprov
    have hne : h ≠ joinKeyColumn ∧ h ≠ joinValueColumn := by
      simpa [isProvenance] using hprov
    rw [joinedCell, if_neg hne.1, if_neg hne.2]
    by_cases hprimary : h ∈ primary.headers
    · simp [hprimary, Table.hasHeader]
    · simp [hprimary, Table.hasHeader, Table.rowCell_of_not_mem (hp.cells row hrow) hprimary]

/-! Matching. -/

/-- The first key with matches is the first key on which some row agrees. -/
theorem firstMatch_eq (ha : attachments.WellFormed) (row : Row) (keys : List String) :
    firstMatch rule row (keys.map fun key => (key, KeyIndex.build rule attachments key)) =
      (keys.find? fun key => !(agreeing rule attachments row key).isEmpty).map fun key =>
        (key, Table.rowCell row key,
          attachments.positionsMatching rule key (Table.rowCell row key)) := by
  induction keys with
  | nil => rfl
  | cons key rest ih =>
    simp only [List.map_cons, firstMatch, KeyIndex.lookup_build rule ha, List.find?_cons]
    have hiff : attachments.positionsMatching rule key (Table.rowCell row key) = [] ↔
        agreeing rule attachments row key = [] := Table.positionsMatching_eq_nil_iff _ _ _ _
    cases hpositions : attachments.positionsMatching rule key (Table.rowCell row key) with
    | nil =>
      have hnone : agreeing rule attachments row key = [] := hiff.mp hpositions
      simp [hnone, ih]
    | cons first others =>
      have hsome : (agreeing rule attachments row key).isEmpty = false := by
        rw [List.isEmpty_eq_false_iff, Ne, ← hiff, hpositions]
        exact List.cons_ne_nil _ _
      simp [hsome, hpositions]

/-- The rows that a primary row becomes, filled up, are those of the
reference. -/
theorem joinRow_eq (hp : primary.WellFormed) (ha : attachments.WellFormed) {row : Row}
    (hrow : row ∈ primary.rows) (keys : List String) :
    (joinRow rule attachments (broughtHeaders primary attachments)
      (keys.map fun key => (key, KeyIndex.build rule attachments key)) row).map
        (Table.fill (joinedHeaders primary attachments)) =
      nestedRows rule keys primary attachments row := by
  rw [joinRow, nestedRows, firstMatch_eq ha]
  cases hfind : keys.find? fun key => !(agreeing rule attachments row key).isEmpty with
  | none => simp [fill_unmatched hp hrow]
  | some key =>
    have hsome : attachments.positionsMatching rule key (Table.rowCell row key) ≠ [] := by
      intro hnil
      have hkey := List.find?_some hfind
      have hnone : agreeing rule attachments row key = [] :=
        (Table.positionsMatching_eq_nil_iff _ _ _ _).mp hnil
      simp [hnone] at hkey
    simp only [Option.map_some, Table.spread, List.isEmpty_iff, hsome, if_false,
      Table.filterMap_positionsMatching, List.map_map]
    exact List.map_congr_left fun other _ => fill_matched hp hrow key _ other

/-- Rows of the reference have a cell for exactly the headers of the joined
table. -/
theorem fits_nestedRows {keys : List String} {row joined : Row}
    (h : joined ∈ nestedRows rule keys primary attachments row) :
    Table.Fits (joinedHeaders primary attachments) joined := by
  have hjoined : ∀ key value other, Table.Fits (joinedHeaders primary attachments)
      (joinedRow primary attachments key value row other) := by
    intro key value other header
    rw [joinedRow, ← Dict.get?_isSome, Dict.get?_ofList_map]
    split <;> simp_all
  unfold nestedRows at h
  split at h
  · obtain ⟨other, -, rfl⟩ := List.mem_map.mp h
    exact hjoined _ _ _
  · rw [List.mem_singleton.mp h]
    exact hjoined _ _ _

/-- A joined row says by which key and on which value it was joined, whatever the
primary row had in those columns. -/
theorem joinedRow_marks (key value : String) (row : Row) (other : Option Row) :
    (joinedRow primary attachments key value row other).get? joinKeyColumn = some key ∧
      (joinedRow primary attachments key value row other).get? joinValueColumn = some value := by
  have hmem : ∀ h, isProvenance h = true → h ∈ joinedHeaders primary attachments :=
    fun h hprov => mem_joinedHeaders.mpr (Or.inr (Or.inr hprov))
  have hne : joinValueColumn ≠ joinKeyColumn := by decide
  constructor
  · rw [joinedRow, Dict.get?_ofList_map, if_pos (hmem _ (by decide)), joinedCell, if_pos rfl]
  · rw [joinedRow, Dict.get?_ofList_map, if_pos (hmem _ (by decide)), joinedCell, if_neg hne,
      if_pos rfl]

/-- Either all rows that a primary row becomes are marked with one key on which
attachment rows agree with it, or none agrees on any key and it becomes one row that
is marked as unmatched. -/
theorem nestedRows_marks (rule : MatchRule) (keys : List String) (primary attachments : Table)
    (row : Row) :
    (∃ key ∈ keys, agreeing rule attachments row key ≠ [] ∧
      nestedRows rule keys primary attachments row ≠ [] ∧
      ∀ joined ∈ nestedRows rule keys primary attachments row,
        joined.get? joinKeyColumn = some key ∧
          joined.get? joinValueColumn = some (Table.rowCell row key)) ∨
    ((∀ key ∈ keys, agreeing rule attachments row key = []) ∧
      ∃ joined, nestedRows rule keys primary attachments row = [joined] ∧
        joined.get? joinKeyColumn = some unmatched ∧ joined.get? joinValueColumn = some "") := by
  unfold nestedRows
  cases hfind : keys.find? fun key => !(agreeing rule attachments row key).isEmpty with
  | some key =>
    have hsome : agreeing rule attachments row key ≠ [] := by simpa using List.find?_some hfind
    refine Or.inl ⟨key, List.mem_of_find?_eq_some hfind, hsome, by simpa using hsome, ?_⟩
    intro joined hjoined
    obtain ⟨other, -, rfl⟩ := List.mem_map.mp hjoined
    exact joinedRow_marks key _ row (some other)
  | none =>
    have hnone : ∀ key ∈ keys, agreeing rule attachments row key = [] := by
      simpa using List.find?_eq_none.mp hfind
    exact Or.inr ⟨hnone, _, rfl, joinedRow_marks unmatched "" row none⟩

/-- All rows that a primary row becomes are marked alike. -/
theorem nestedRows_marked (rule : MatchRule) (keys : List String) (primary attachments : Table)
    (row : Row) :
    ∃ key value, nestedRows rule keys primary attachments row ≠ [] ∧
      ∀ joined ∈ nestedRows rule keys primary attachments row,
        joined.get? joinKeyColumn = some key ∧ joined.get? joinValueColumn = some value := by
  rcases nestedRows_marks rule keys primary attachments row with
    ⟨key, -, -, hne, hmarks⟩ | ⟨-, joined, hrows, hmark, hvalue⟩
  · exact ⟨key, _, hne, hmarks⟩
  · refine ⟨unmatched, "", by simp [hrows], ?_⟩
    intro other hother
    rw [hrows, List.mem_singleton] at hother
    exact hother ▸ ⟨hmark, hvalue⟩

theorem nestedLoop_wellFormed (rule : MatchRule) (keys : List String) (hp : primary.WellFormed)
    (ha : attachments.WellFormed) :
    (nestedLoop rule keys primary attachments).table.WellFormed := by
  refine ⟨joinedHeaders_nodup hp ha, ?_⟩
  intro joined hjoined
  obtain ⟨row, -, hrow⟩ := List.mem_flatMap.mp hjoined
  exact fits_nestedRows hrow

/-- Joining through indexes is joining by nested loops. -/
theorem ofJoin_eq_nestedLoop (rule : MatchRule) (keys : List String) (hp : primary.WellFormed)
    (ha : attachments.WellFormed) :
    ofJoin rule keys primary attachments = nestedLoop rule keys primary attachments := by
  let indexes := keys.map fun key => (key, KeyIndex.build rule attachments key)
  let rows := primary.rows.flatMap
    (joinRow rule attachments (broughtHeaders primary attachments) indexes)
  have hfilled : rows.map (Table.fill (joinedHeaders primary attachments)) =
      primary.rows.flatMap (nestedRows rule keys primary attachments) := by
    rw [List.map_flatMap, List.flatMap_def, List.flatMap_def]
    congr 1
    exact List.map_congr_left fun row hrow => joinRow_eq hp ha hrow keys
  rw [ofJoin, withHeaders_joined hp ha]
  exact congrArg Merged.mk
    (Table.foldl_pushRow_filled hfilled (nestedLoop_wellFormed rule keys hp ha).cells)

end Merged

/-- The table that a plan makes of its attachments, once the plan is known to
be usable: aliases applied, then stacked or chained. -/
def combined (plan : JoinPlan) (rule : MatchRule) (attachments : List Table) : Table :=
  let renamed := attachments.map (·.rename plan.aliases)
  match plan.itemType with
  | .singleSource => Table.stack renamed
  | .multiSource => Table.chain rule (Text.trim (plan.internalKey.getD "")) renamed

theorem combined_wellFormed (plan : JoinPlan) (rule : MatchRule) {attachments : List Table}
    (h : ∀ t ∈ attachments, t.WellFormed) : (combined plan rule attachments).WellFormed := by
  have hrenamed : ∀ t ∈ attachments.map (·.rename plan.aliases), t.WellFormed := by
    intro t ht
    obtain ⟨old, hold, rfl⟩ := List.mem_map.mp ht
    exact (h old hold).rename plan.aliases
  unfold combined
  cases plan.itemType with
  | singleSource => exact Table.stack_wellFormed hrenamed
  | multiSource => exact Table.chain_wellFormed rule _ hrenamed

theorem presentText?_eq (text : Option String) :
    presentText? text =
      if Text.isBlankText (text.getD "") then none else some (Text.trim (text.getD "")) := by
  cases text with
  | none => rfl
  | some t =>
    rw [presentText?, Option.map_some, Option.filter_some, Text.trim_isEmpty]
    cases h : Text.isBlankText t <;> simp [h]

/-- If attachments become one table at all, it is that one. -/
theorem eq_combined_of_combine {plan : JoinPlan} {rule : MatchRule} {attachments : List Table}
    {t : Table} (h : combine plan rule attachments = .ok t) :
    t = combined plan rule attachments := by
  simp only [combine, presentText?_eq] at h
  simp only [combined]
  cases htype : plan.itemType with
  | singleSource =>
    rw [htype] at h
    exact (Except.ok.inj h).symm
  | multiSource =>
    rw [htype] at h
    cases hblank : Text.isBlankText (plan.internalKey.getD "") with
    | true => simp [hblank] at h
    | false =>
      simp only [hblank, Bool.false_eq_true, if_false] at h
      exact (Except.ok.inj h).symm

/-- Attachments that are stacked can be merged by any keys. -/
theorem merge_singleSource (rule : MatchRule) (primary : Table) (attachments : List Table)
    {plan : JoinPlan} (htype : plan.itemType = .singleSource) (hkeys : usableKeys plan ≠ []) :
    merge plan rule primary attachments =
      .ok (Merged.ofJoin rule (usableKeys plan) primary (combined plan rule attachments)) := by
  obtain ⟨key, others, husable⟩ := List.exists_cons_of_ne_nil hkeys
  simp only [merge, husable, combine, combined, htype]

/-- A merge that succeeds joins the primary table with what its attachments become. -/
theorem eq_ofJoin_of_merge {plan : JoinPlan} {rule : MatchRule} {primary : Table}
    {attachments : List Table} {m : Merged} (h : merge plan rule primary attachments = .ok m) :
    m = Merged.ofJoin rule (usableKeys plan) primary (combined plan rule attachments) := by
  unfold merge at h
  cases hkeys : usableKeys plan with
  | nil => simp [hkeys] at h
  | cons key others =>
    cases hcombine : combine plan rule attachments with
    | error e => simp [hkeys, hcombine] at h
    | ok all =>
      simp only [hkeys, hcombine] at h
      rw [← Except.ok.inj h, eq_combined_of_combine hcombine]

theorem eq_nestedLoop_of_merge {plan : JoinPlan} {rule : MatchRule} {primary : Table}
    {attachments : List Table} {m : Merged} (hprimary : primary.WellFormed)
    (hattachments : ∀ t ∈ attachments, t.WellFormed)
    (h : merge plan rule primary attachments = .ok m) :
    m = Merged.nestedLoop rule (usableKeys plan) primary (combined plan rule attachments) := by
  rw [eq_ofJoin_of_merge h]
  exact Merged.ofJoin_eq_nestedLoop rule _ hprimary (combined_wellFormed plan rule hattachments)

/-- The merge by nested loops. -/
def nestedMerge (plan : JoinPlan) (rule : MatchRule) (primary : Table)
    (attachments : List Table) : Except MergeError Merged :=
  if usableKeys plan = [] then .error .noJoinKeys
  else if plan.itemType = .multiSource ∧ Text.isBlankText (plan.internalKey.getD "") = true then
    .error .noInternalKey
  else .ok (Merged.nestedLoop rule (usableKeys plan) primary (combined plan rule attachments))

/-- A merge fails for want of keys or is the left outer join by nested loops of
the primary table with all attachments. -/
theorem merge_eq_nestedMerge (plan : JoinPlan) (rule : MatchRule) (primary : Table)
    (attachments : List Table) (hprimary : primary.WellFormed)
    (hattachments : ∀ t ∈ attachments, t.WellFormed) :
    merge plan rule primary attachments = nestedMerge plan rule primary attachments := by
  have hjoin := Merged.ofJoin_eq_nestedLoop rule (usableKeys plan) hprimary
    (combined_wellFormed plan rule hattachments)
  unfold merge nestedMerge
  cases hkeys : usableKeys plan with
  | nil => simp
  | cons key others =>
    rw [hkeys] at hjoin
    rw [if_neg (List.cons_ne_nil _ _), ← hjoin]
    simp only [combine, combined, presentText?_eq]
    cases plan.itemType with
    | singleSource => simp
    | multiSource =>
      cases hblank : Text.isBlankText (plan.internalKey.getD "") with
      | true => simp
      | false => simp

/-- The first row fans out on the first key, the second falls through to the
second key, the third has only a blank value there and stays alone. -/
theorem merge_eq_nestedMerge_fallback :
    let primary := Table.ofRecords [[("phone", "1 "), ("acct", "A")],
      [("phone", "2"), ("acct", " b")], [("phone", "3"), ("acct", " ")]]
    let attachment := Table.ofRecords [[("phone", "1"), ("_join_key", "x"), ("dept", "sales")],
      [("phone", "1"), ("acct", "B"), ("dept", "law")], [("phone", " "), ("acct", "")]]
    let plan := JoinPlan.ofKeys .singleSource [" phone ", "", "acct"]
    (merge plan .tolerant primary [attachment]).toOption.map (fun m =>
      (m.table.headers, m.table.rows.map fun row => m.table.headers.map (Table.rowCell row))) =
      some (["phone", "acct", "dept", "_join_key", "_join_value"],
        [["1 ", "A", "sales", "phone", "1 "], ["1 ", "A", "law", "phone", "1 "],
          ["2", " b", "law", "acct", " b"], ["3", " ", "", "unmatched", ""]]) := by
  intro primary attachment plan
  rw [merge_eq_nestedMerge plan .tolerant primary [attachment] (Table.ofRecords_wellFormed _) (by
    intro t ht
    rw [List.mem_singleton.mp ht]
    exact Table.ofRecords_wellFormed _)]
  decide +kernel

end Collate
