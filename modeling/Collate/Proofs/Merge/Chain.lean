import Collate.Proofs.Merge.Join
import Mathlib.Data.List.Basic
import Mathlib.Data.List.TakeWhile

/-!
Chaining attachments is a left fold of plain left joins. The reference below joins
two tables by going through all right rows for each left row. A left row is never
lost and never changed, however many tables follow, so chaining can be done
beforehand: merging several chained attachments is merging the one table that
chaining makes of them.
-/

namespace Collate.Table

open Merged (agreeing)

/-! The reference. -/

/-- A left row beside a right one, or alone. Columns of the left table keep its
cells, and the others have those of the right row or are empty. -/
def paired (left right : Table) (row : Row) (other : Option Row) : Row :=
  rowOf (left.headers ++ newHeaders left right) fun h =>
    if left.hasHeader h then rowCell row h else (other.map fun o => rowCell o h).getD ""

/-- What a left row becomes: one row for each right row that agrees with it on the
key, or one row alone. -/
def pairings (rule : MatchRule) (key : String) (left right : Table) (row : Row) : List Row :=
  if agreeing rule right row key = [] then [paired left right row none]
  else (agreeing rule right row key).map fun other => paired left right row (some other)

def nestedJoin (rule : MatchRule) (key : String) (left right : Table) : Table :=
  ⟨left.headers ++ newHeaders left right, left.rows.flatMap (pairings rule key left right)⟩

/-- The fold of left outer joins over the tables from the first one that has
rows. -/
def nestedChain (rule : MatchRule) (key : String) (tables : List Table) : Table :=
  match tables.dropWhile isEmpty with
  | [] => empty
  | first :: rest => rest.foldl (nestedJoin rule key) first

/-- Every row of a table is in another one, once or several times, in order and
with all its cells. -/
structure Carries (before after : Table) : Prop where
  headers : before.headers <+: after.headers
  rows : ∃ images : Row → List Row, after.rows = before.rows.flatMap images ∧
    ∀ row ∈ before.rows, images row ≠ [] ∧
      ∀ image ∈ images row, ∀ h ∈ before.headers, image.get? h = row.get? h

variable {rule : MatchRule} {key : String} {left right : Table}

/-! One join. -/

theorem mem_newHeaders {h : String} :
    h ∈ newHeaders left right ↔ h ∈ right.headers ∧ h ∉ left.headers := by
  simp only [newHeaders, hasHeader, List.mem_filter, Bool.not_eq_true', List.contains_eq_mem,
    decide_eq_false_iff_not]

theorem pairedHeaders_nodup (hl : left.WellFormed) (hr : right.WellFormed) :
    (left.headers ++ newHeaders left right).Nodup := by
  rw [List.nodup_append]
  refine ⟨hl.headers_nodup, hr.headers_nodup.filter _, ?_⟩
  rintro h hh other hother rfl
  exact (mem_newHeaders.mp hother).2 hh

/-- A row with the cells of a match becomes the row of the reference when it is
filled up. -/
theorem fill_extendRow (hl : left.WellFormed) {row : Row} (hrow : row ∈ left.rows) (other : Row) :
    fill (left.headers ++ newHeaders left right) (extendRow (newHeaders left right) row other) =
      paired left right row (some other) := by
  apply Dict.ext_get?
  intro h
  rw [get?_fill, get?_extendRow, get?_of_fits (hl.cells row hrow), paired, get?_rowOf]
  by_cases hleft : h ∈ left.headers
  · simp [hleft, mem_newHeaders]
  · by_cases hnew : h ∈ newHeaders left right
    · simp [hleft, hnew, hasHeader]
    · simp [hleft, hnew]

/-- A row without a match becomes the row of the reference when it is filled up. -/
theorem fill_alone (hl : left.WellFormed) {row : Row} (hrow : row ∈ left.rows) :
    fill (left.headers ++ newHeaders left right) row = paired left right row none := by
  apply Dict.ext_get?
  intro h
  rw [get?_fill, get?_of_fits (hl.cells row hrow), paired, get?_rowOf]
  by_cases hleft : h ∈ left.headers
  · simp [hleft, hasHeader]
  · simp [hleft, hasHeader]

/-- The rows that a left row becomes, filled up, are those of the reference. -/
theorem spread_eq_pairings (hl : left.WellFormed) (hr : right.WellFormed) {row : Row}
    (hrow : row ∈ left.rows) :
    (spread right (newHeaders left right) row
      ((KeyIndex.build rule right key).lookup rule (rowCell row key))).map
        (fill (left.headers ++ newHeaders left right)) = pairings rule key left right row := by
  rw [KeyIndex.lookup_build rule hr, spread, pairings]
  have hiff : right.positionsMatching rule key (rowCell row key) = [] ↔
      agreeing rule right row key = [] := positionsMatching_eq_nil_iff _ _ _ _
  by_cases hnone : agreeing rule right row key = []
  · rw [if_pos (List.isEmpty_iff.mpr (hiff.mpr hnone)), if_pos hnone, List.map_singleton,
      fill_alone hl hrow]
  · rw [if_neg fun hempty => hnone (hiff.mp (List.isEmpty_iff.mp hempty)), if_neg hnone,
      filterMap_positionsMatching, List.map_map]
    exact List.map_congr_left fun other _ => fill_extendRow hl hrow other

theorem paired_of_mem_pairings {row image : Row} (h : image ∈ pairings rule key left right row) :
    ∃ other, image = paired left right row other := by
  unfold pairings at h
  split at h
  · exact ⟨none, List.mem_singleton.mp h⟩
  · obtain ⟨other, -, rfl⟩ := List.mem_map.mp h
    exact ⟨some other, rfl⟩

theorem pairings_ne_nil (row : Row) : pairings rule key left right row ≠ [] := by
  unfold pairings
  split
  · exact List.cons_ne_nil _ _
  · rename_i hsome
    simpa using hsome

theorem nestedJoin_wellFormed (rule : MatchRule) (key : String) (hl : left.WellFormed)
    (hr : right.WellFormed) : (nestedJoin rule key left right).WellFormed := by
  refine ⟨pairedHeaders_nodup hl hr, ?_⟩
  intro image himage
  obtain ⟨row, -, hpairing⟩ := List.mem_flatMap.mp himage
  obtain ⟨other, rfl⟩ := paired_of_mem_pairings hpairing
  exact fits_rowOf _ _

/-- Joining through an index is joining by nested loops. -/
theorem leftJoin_eq_nestedJoin (rule : MatchRule) (key : String) (hl : left.WellFormed)
    (hr : right.WellFormed) : leftJoin rule key left right = nestedJoin rule key left right := by
  have hfilled : (left.rows.flatMap fun row => spread right (newHeaders left right) row
      ((KeyIndex.build rule right key).lookup rule (rowCell row key))).map
        (fill (left.headers ++ newHeaders left right)) =
      left.rows.flatMap (pairings rule key left right) := by
    rw [List.map_flatMap]
    exact List.flatMap_congr fun row hrow => spread_eq_pairings hl hr hrow
  rw [leftJoin, withHeaders_of_nodup (pairedHeaders_nodup hl hr)]
  exact foldl_pushRow_filled hfilled (nestedJoin_wellFormed rule key hl hr).cells

/-! Rows that are carried on. -/

theorem Carries.refl (t : Table) : Carries t t where
  headers := List.prefix_refl _
  rows := ⟨fun row => [row], (List.flatMap_singleton' _).symm, fun _ _ =>
    ⟨List.cons_ne_nil _ _, fun _ himage _ _ => List.mem_singleton.mp himage ▸ rfl⟩⟩

theorem Carries.trans {first second third : Table} (h : Carries first second)
    (h' : Carries second third) : Carries first third := by
  obtain ⟨images, hrows, himages⟩ := h.rows
  obtain ⟨images', hrows', himages'⟩ := h'.rows
  refine ⟨h.headers.trans h'.headers, fun row => (images row).flatMap images', ?_, ?_⟩
  · rw [hrows', hrows, List.flatMap_assoc]
  · intro row hrow
    have hsecond : ∀ image ∈ images row, image ∈ second.rows := fun image himage =>
      hrows ▸ List.mem_flatMap.mpr ⟨row, hrow, himage⟩
    refine ⟨?_, ?_⟩
    · obtain ⟨image, himage⟩ := List.exists_mem_of_ne_nil _ (himages row hrow).1
      obtain ⟨last, hlast⟩ := List.exists_mem_of_ne_nil _ (himages' image (hsecond image himage)).1
      exact List.ne_nil_of_mem (List.mem_flatMap.mpr ⟨image, himage, hlast⟩)
    · intro last hlast header hheader
      obtain ⟨image, himage, hlast⟩ := List.mem_flatMap.mp hlast
      have hthere : header ∈ second.headers := h.headers.subset hheader
      rw [(himages' image (hsecond image himage)).2 last hlast header hthere,
        (himages row hrow).2 image himage header hheader]

theorem carries_leftJoin (rule : MatchRule) (key : String) (hl : left.WellFormed)
    (hr : right.WellFormed) : Carries left (leftJoin rule key left right) := by
  rw [leftJoin_eq_nestedJoin rule key hl hr]
  refine ⟨List.prefix_append _ _, pairings rule key left right, rfl, ?_⟩
  intro row hrow
  refine ⟨pairings_ne_nil row, ?_⟩
  intro image himage header hheader
  obtain ⟨other, rfl⟩ := paired_of_mem_pairings himage
  rw [paired, get?_rowOf, get?_of_fits (hl.cells row hrow)]
  simp [hheader, hasHeader]

/-! Many joins. -/

variable {first : Table} {rest : List Table}

theorem foldl_leftJoin_eq (rule : MatchRule) (key : String) (hfirst : first.WellFormed)
    (hrest : ∀ t ∈ rest, t.WellFormed) :
    rest.foldl (leftJoin rule key) first = rest.foldl (nestedJoin rule key) first := by
  induction rest generalizing first with
  | nil => rfl
  | cons next others ih =>
    have hnext := hrest next List.mem_cons_self
    rw [List.foldl_cons, List.foldl_cons, leftJoin_eq_nestedJoin rule key hfirst hnext]
    exact ih (nestedJoin_wellFormed rule key hfirst hnext) fun t ht =>
      hrest t (List.mem_cons_of_mem _ ht)

theorem carries_foldl_leftJoin (rule : MatchRule) (key : String) (hfirst : first.WellFormed)
    (hrest : ∀ t ∈ rest, t.WellFormed) : Carries first (rest.foldl (leftJoin rule key) first) := by
  induction rest generalizing first with
  | nil => exact Carries.refl first
  | cons next others ih =>
    have hnext := hrest next List.mem_cons_self
    exact (carries_leftJoin rule key hfirst hnext).trans
      (ih (leftJoin_wellFormed rule key first next) fun t ht =>
        hrest t (List.mem_cons_of_mem _ ht))

theorem wellFormed_dropWhile {tables : List Table} (h : ∀ t ∈ tables, t.WellFormed) :
    ∀ t ∈ tables.dropWhile isEmpty, t.WellFormed :=
  fun t ht => h t ((List.dropWhile_sublist _).subset ht)

theorem chain_eq_nestedChain (rule : MatchRule) (key : String) {tables : List Table}
    (h : ∀ t ∈ tables, t.WellFormed) : chain rule key tables = nestedChain rule key tables := by
  have hkept := wellFormed_dropWhile h
  unfold chain nestedChain
  cases hdrop : tables.dropWhile isEmpty with
  | nil => rfl
  | cons first rest =>
    rw [hdrop, List.forall_mem_cons] at hkept
    exact foldl_leftJoin_eq rule key hkept.1 hkept.2

theorem carries_chain (rule : MatchRule) (key : String) {tables : List Table}
    (h : ∀ t ∈ tables, t.WellFormed) {first : Table}
    (hfirst : tables.find? (fun t => !t.isEmpty) = some first) :
    Carries first (chain rule key tables) := by
  have hkept := wellFormed_dropWhile h
  rw [List.find?_eq_head?_dropWhile_not] at hfirst
  simp only [Bool.not_not] at hfirst
  obtain ⟨rest, hdrop⟩ := List.head?_eq_some_iff.mp hfirst
  unfold chain
  rw [hdrop, List.forall_mem_cons] at hkept
  simp only [hdrop]
  exact carries_foldl_leftJoin rule key hkept.1 hkept.2

/-- A plan that chains its attachments first, and a plan that finds them chained. -/
theorem merge_chained (rule : MatchRule) (primary : Table) (attachments : List Table)
    {plan : JoinPlan} {key : String} (htype : plan.itemType = .multiSource)
    (hkey : presentText? plan.internalKey = some key) :
    merge plan rule primary attachments =
      merge { plan with itemType := .singleSource, aliases := Dict.empty } rule primary
        [chain rule key (attachments.map (·.rename plan.aliases))] := by
  have hchained : combine plan rule attachments =
      .ok (chain rule key (attachments.map (·.rename plan.aliases))) := by
    simp only [combine, htype, hkey]
  have hfound : ∀ t : Table,
      combine { plan with itemType := .singleSource, aliases := Dict.empty } rule [t] = .ok t := by
    intro t
    simp only [combine, List.map_cons, List.map_nil, rename_empty, stack, List.foldl_nil]
  simp only [merge, hchained, hfound, usableKeys]

/-- Chaining tables is the fold of left outer joins by nested loops from the first
table that has rows. All rows of that one are carried to the end. Merging tables that
are chained, be they renamed or not, is merging the table that chaining makes of them,
by the same keys. -/
theorem chain_folds_joins (rule : MatchRule) (key : String) {tables : List Table}
    (h : ∀ t ∈ tables, t.WellFormed) :
    chain rule key tables = nestedChain rule key tables ∧
    (∀ first, tables.find? (fun t => !t.isEmpty) = some first →
      Carries first (chain rule key tables)) ∧
    ∀ (plan : JoinPlan) (primary : Table) (attachments : List Table),
      plan.itemType = .multiSource → presentText? plan.internalKey = some key →
      attachments.map (·.rename plan.aliases) = tables →
      merge plan rule primary attachments =
        merge { plan with itemType := .singleSource, aliases := Dict.empty } rule primary
          [chain rule key tables] := by
  refine ⟨chain_eq_nestedChain rule key h, fun first hfirst => carries_chain rule key h hfirst, ?_⟩
  rintro plan primary attachments htype hkey rfl
  exact merge_chained rule primary attachments htype hkey

/-- A table without rows in front is left out, one in the middle brings an empty
column that a later one cannot fill, and the last one fans out. -/
theorem chain_folds_joins_fan_out :
    let invoices := ofRecords [[("acct", "A"), ("invoice", "1")], [("acct", "B"), ("invoice", " ")],
      [("acct", "C"), ("invoice", "9")]]
    let lines := ofRecords [[("invoice", "1"), ("sku", "X"), ("region", "N")],
      [("acct", "Z"), ("invoice", " 1"), ("sku", "Y")]]
    let tables := [withHeaders ["note"], invoices, withHeaders ["invoice", "region"], lines]
    let plan := { JoinPlan.ofKeys .multiSource ["acct"] with internalKey := some " invoice " }
    let primary := ofRecords [[("acct", "a")], [("acct", "C")], [("acct", "z")]]
    let chained := chain .tolerant "invoice" tables
    (∀ t ∈ tables, t.WellFormed) ∧ chained = nestedChain .tolerant "invoice" tables ∧
      tables.find? (fun t => !t.isEmpty) = some invoices ∧ Carries invoices chained ∧
      presentText? plan.internalKey = some "invoice" ∧
      tables.map (·.rename plan.aliases) = tables ∧
      merge plan .tolerant primary tables =
        merge { plan with itemType := .singleSource, aliases := Dict.empty } .tolerant primary
          [chained] ∧
      chained.headers = ["acct", "invoice", "region", "sku"] ∧
      chained.rows.map (fun row => chained.headers.map (rowCell row)) =
        [["A", "1", "", "X"], ["A", "1", "", "Y"], ["B", " ", "", ""], ["C", "9", "", ""]] := by
  intro invoices lines tables plan primary chained
  have hw : ∀ t ∈ tables, t.WellFormed := by
    simp only [tables, List.forall_mem_cons]
    exact ⟨withHeaders_wellFormed _, ofRecords_wellFormed _, withHeaders_wellFormed _,
      ofRecords_wellFormed _, List.forall_mem_nil _⟩
  have hfirst : tables.find? (fun t => !t.isEmpty) = some invoices := by decide +kernel
  have hkey : presentText? plan.internalKey = some "invoice" := by decide +kernel
  have hrenamed : tables.map (·.rename plan.aliases) = tables := by decide +kernel
  obtain ⟨heq, hcarries, hmerge⟩ := chain_folds_joins .tolerant "invoice" hw
  exact ⟨hw, heq, hfirst, hcarries invoices hfirst, hkey, hrenamed,
    hmerge plan primary tables rfl hkey hrenamed, by decide +kernel, by decide +kernel⟩

end Collate.Table
