import Collate.Proofs.Matching.Rule
import Collate.Proofs.Merge.Concat

/-!
What the provenance columns say. A row that was joined names the key and has the value of
its primary row under that key, which is never blank; a row that was not joined has an
empty value. Counting rows by key counts each row once, and putting merged tables one
after the other adds their counts up.
-/

namespace Collate

/-- The sum of the counts under a key, if one of the maps has it. -/
def Dict.sumUnder (maps : List (Dict Nat)) (key : String) : Option Nat :=
  if maps.any (·.contains key) then some (maps.map fun counts => (counts.get? key).getD 0).sum
  else none

namespace Merged

def isUnmatched (rule : MatchRule) (keys : List String) (attachments : Table) (row : Row) :
    Bool :=
  keys.all fun key => (agreeing rule attachments row key).isEmpty

def joinedBy (m : Merged) (key : String) : Nat :=
  m.table.rows.countP fun row => Table.rowCell row joinKeyColumn == key

def counted (counts : Dict Nat) (row : Row) : Dict Nat :=
  let key := Table.rowCell row joinKeyColumn
  counts.insert key ((counts.get? key).getD 0 + 1)

/-- Whether a row was joined by a key that has the name of unmatched rows. -/
def namedUnmatched (joined : Row) : Bool :=
  Table.rowCell joined joinKeyColumn == unmatched && Table.rowCell joined joinValueColumn != ""

/-! Counting. -/

theorem get?_counted (counts : Dict Nat) (row : Row) (key : String) :
    (counted counts row).get? key =
      if Table.rowCell row joinKeyColumn = key then some ((counts.get? key).getD 0 + 1)
      else counts.get? key := by
  rw [counted, Dict.get?_insert]
  split
  · rename_i heq
    rw [heq]
  · rfl

theorem get?_foldl_counted (rows : List Row) (counts : Dict Nat) (key : String) :
    (rows.foldl counted counts).get? key =
      if rows.countP (fun row => Table.rowCell row joinKeyColumn == key) = 0
      then counts.get? key
      else some ((counts.get? key).getD 0 +
        rows.countP fun row => Table.rowCell row joinKeyColumn == key) := by
  induction rows generalizing counts with
  | nil => rfl
  | cons row rest ih =>
    rw [List.foldl_cons, ih, get?_counted, List.countP_cons]
    by_cases heq : Table.rowCell row joinKeyColumn = key
    · simp only [heq, if_true, beq_self_eq_true, Option.getD_some, Nat.add_eq_zero_iff,
        Nat.one_ne_zero, and_false, if_false]
      split
      · rename_i hzero
        rw [hzero]
      · congr 1
        omega
    · simp [heq]

theorem total_foldl_counted (rows : List Row) (counts : Dict Nat) :
    (rows.foldl counted counts).total = counts.total + rows.length := by
  induction rows generalizing counts with
  | nil => rfl
  | cons row rest ih =>
    have hinsert := counts.total_insert (Table.rowCell row joinKeyColumn)
      ((counts.get? (Table.rowCell row joinKeyColumn)).getD 0 + 1)
    rw [List.foldl_cons, ih, counted, List.length_cons]
    omega

/-- The summary has a count under each key that a row names, the number of those rows. -/
theorem get?_summary (m : Merged) (key : String) :
    m.summary.get? key = if m.joinedBy key = 0 then none else some (m.joinedBy key) := by
  have hfold := get?_foldl_counted m.table.rows Dict.empty key
  rw [Dict.get?_empty, Option.getD_none, Nat.zero_add] at hfold
  exact hfold

/-- Every row is counted once. -/
theorem total_summary (m : Merged) : m.summary.total = m.table.size := by
  have hfold := total_foldl_counted m.table.rows Dict.empty
  rw [show Dict.total Dict.empty = 0 from rfl, Nat.zero_add] at hfold
  exact hfold

/-! Tables one after the other. -/

/-- Putting tables one after the other changes no provenance. -/
theorem joinedBy_concat {parts : List Merged} (hw : ∀ m ∈ parts, m.table.WellFormed)
    (key : String) : (concat parts).joinedBy key = (parts.map (·.joinedBy key)).sum := by
  cases parts with
  | nil => rfl
  | cons first rest =>
    rw [concat_eq (List.cons_ne_nil first rest) hw, joinedBy, List.countP_flatMap]
    congr 1
    apply List.map_congr_left
    intro m _
    rw [Function.comp_apply, List.countP_map, joinedBy]
    congr 1
    funext row
    rw [Function.comp_apply, Table.rowCell_fill]

theorem getD_summary (m : Merged) (key : String) :
    (m.summary.get? key).getD 0 = m.joinedBy key := by
  rw [get?_summary]
  split
  · rename_i hzero
    exact hzero.symm
  · rfl

theorem contains_summary (m : Merged) (key : String) :
    m.summary.contains key = true ↔ 0 < m.joinedBy key := by
  rw [Dict.contains, get?_summary]
  split
  · rename_i hzero
    simp [hzero]
  · rename_i hcount
    simp [Nat.pos_of_ne_zero hcount]

/-- The summary of tables one after the other is the sum of their summaries, key by
key. -/
theorem summary_concat {parts : List Merged} (hw : ∀ m ∈ parts, m.table.WellFormed)
    (key : String) : (concat parts).summary.get? key = Dict.sumUnder (parts.map summary) key := by
  have hany : (parts.map summary).any (·.contains key) = true ↔
      0 < (parts.map (·.joinedBy key)).sum := by
    rw [List.any_map, List.any_eq_true, List.sum_pos_iff_exists_pos_nat]
    simp [contains_summary]
  rw [get?_summary, joinedBy_concat hw, Dict.sumUnder]
  simp only [List.map_map, Function.comp_def, getD_summary]
  split
  · rename_i hzero
    rw [if_neg]
    rw [hany]
    omega
  · rename_i hcount
    rw [if_pos (hany.mpr (Nat.pos_of_ne_zero hcount))]

/-! Rows of one merge. -/

variable {rule : MatchRule} {keys : List String} {primary attachments : Table} {row : Row}

theorem isUnmatched_iff : isUnmatched rule keys attachments row = true ↔
    ∀ key ∈ keys, agreeing rule attachments row key = [] := by
  simp [isUnmatched]

/-- A row agrees on no key on which its own value is blank. -/
theorem not_blank_of_agreeing {key : String} (h : agreeing rule attachments row key ≠ []) :
    Text.isBlankText (Table.rowCell row key) = false := by
  obtain ⟨other, hother⟩ := List.exists_mem_of_ne_nil _ h
  exact (MatchRule.agrees_iff.mp (List.mem_filter.mp hother).2).1

/-- A row without a match becomes one row, which says so. -/
theorem nestedRows_unmatched (primary : Table)
    (h : isUnmatched rule keys attachments row = true) :
    ∃ joined, nestedRows rule keys primary attachments row = [joined] ∧
      joined.get? joinKeyColumn = some unmatched ∧ joined.get? joinValueColumn = some "" := by
  rcases nestedRows_marks rule keys primary attachments row with
    ⟨key, hkey, hagrees, -⟩ | ⟨-, hrows⟩
  · exact absurd (isUnmatched_iff.mp h key hkey) hagrees
  · exact hrows

/-- All rows that a row with matches becomes name one key, on which it has matches. -/
theorem nestedRows_matched (primary : Table)
    (h : isUnmatched rule keys attachments row = false) :
    ∃ key ∈ keys, agreeing rule attachments row key ≠ [] ∧
      ∀ joined ∈ nestedRows rule keys primary attachments row,
        joined.get? joinKeyColumn = some key ∧
          joined.get? joinValueColumn = some (Table.rowCell row key) := by
  rcases nestedRows_marks rule keys primary attachments row with
    ⟨key, hkey, hagrees, -, hmarks⟩ | ⟨hnone, -⟩
  · exact ⟨key, hkey, hagrees, hmarks⟩
  · rw [isUnmatched_iff.mpr hnone] at h
    cases h

/-- What the provenance columns of a joined row say. -/
theorem nestedRows_provenance {joined : Row}
    (h : joined ∈ nestedRows rule keys primary attachments row) :
    (Table.rowCell joined joinValueColumn = "" ↔
      isUnmatched rule keys attachments row = true) ∧
    (isUnmatched rule keys attachments row = false →
      ∃ key ∈ keys, agreeing rule attachments row key ≠ [] ∧
        joined.get? joinKeyColumn = some key ∧
        joined.get? joinValueColumn = some (Table.rowCell row key) ∧
        Text.isBlankText (Table.rowCell row key) = false) := by
  cases hmatch : isUnmatched rule keys attachments row with
  | true =>
    obtain ⟨other, hrows, -, hvalue⟩ := nestedRows_unmatched primary hmatch
    rw [hrows, List.mem_singleton] at h
    simp [h, Table.rowCell, hvalue]
  | false =>
    obtain ⟨key, hkey, hagrees, hmarks⟩ := nestedRows_matched primary hmatch
    obtain ⟨hmark, hvalue⟩ := hmarks joined h
    have hblank := not_blank_of_agreeing hagrees
    have hfilled : Table.rowCell joined joinValueColumn ≠ "" := by
      rw [Table.rowCell, hvalue, Option.getD_some]
      intro hempty
      rw [hempty] at hblank
      cases hblank
    exact ⟨iff_of_false hfilled Bool.false_ne_true, fun _ =>
      ⟨key, hkey, hagrees, hmark, hvalue, hblank⟩⟩

/-- Of the rows that a primary row becomes those named as unmatched are the one that it
becomes without a match and those that were joined by a key of that name. -/
theorem countP_unmatched (rule : MatchRule) (keys : List String) (primary attachments : Table)
    (row : Row) :
    (nestedRows rule keys primary attachments row).countP
        (fun joined => Table.rowCell joined joinKeyColumn == unmatched) =
      (if isUnmatched rule keys attachments row then 1 else 0) +
        (nestedRows rule keys primary attachments row).countP namedUnmatched := by
  cases hmatch : isUnmatched rule keys attachments row with
  | false =>
    rw [if_neg Bool.false_ne_true, Nat.zero_add]
    apply List.countP_congr
    intro joined hjoined
    have hvalue : Table.rowCell joined joinValueColumn ≠ "" := fun hempty =>
      Bool.false_ne_true (hmatch ▸ (nestedRows_provenance hjoined).1.mp hempty)
    simp [namedUnmatched, hvalue]
  | true =>
    obtain ⟨joined, hrows, hmark, hvalue⟩ := nestedRows_unmatched primary hmatch
    rw [hrows]
    simp [namedUnmatched, Table.rowCell, hmark, hvalue]

theorem joinedBy_unmatched (rule : MatchRule) (keys : List String) (primary attachments : Table) :
    (nestedLoop rule keys primary attachments).joinedBy unmatched =
      primary.rows.countP (isUnmatched rule keys attachments) +
        (nestedLoop rule keys primary attachments).table.rows.countP namedUnmatched := by
  have hrows : ∀ rows : List Row,
      (rows.flatMap (nestedRows rule keys primary attachments)).countP
        (fun joined => Table.rowCell joined joinKeyColumn == unmatched) =
      rows.countP (isUnmatched rule keys attachments) +
        (rows.flatMap (nestedRows rule keys primary attachments)).countP namedUnmatched := by
    intro rows
    induction rows with
    | nil => rfl
    | cons row rest ih =>
      rw [List.flatMap_cons, List.countP_append, List.countP_append, ih,
        countP_unmatched rule keys primary attachments row, List.countP_cons]
      omega
  exact hrows primary.rows

/-- If no key has the name of unmatched rows, no joined row does. -/
theorem countP_namedUnmatched (hkeys : unmatched ∉ keys) :
    (nestedLoop rule keys primary attachments).table.rows.countP namedUnmatched = 0 := by
  rw [List.countP_eq_zero]
  intro joined hjoined hnamed
  obtain ⟨row, -, hjoined⟩ := List.mem_flatMap.mp hjoined
  obtain ⟨hempty, hmatched⟩ := nestedRows_provenance hjoined
  simp only [namedUnmatched, Bool.and_eq_true, beq_iff_eq, bne_iff_ne] at hnamed
  cases hmatch : isUnmatched rule keys attachments row with
  | true => exact hnamed.2 (hempty.mpr hmatch)
  | false =>
    obtain ⟨key, hkey, -, hmark, -⟩ := hmatched hmatch
    rw [Table.rowCell, hmark, Option.getD_some] at hnamed
    exact hkeys (hnamed.1 ▸ hkey)

end Merged

/-- Each primary row becomes rows that say how it was joined. If no attachment row agrees
with it on any key their joining value is empty, and otherwise it is the value of the
primary row under the joining key, which is not blank. The summary counts every row once.
Under the word for unmatched rows it counts the primary rows without a match, and besides
them only rows that were joined by a key of that name. Summaries add up when merged
tables are put one after the other. -/
theorem merge_provenance {plan : JoinPlan} {rule : MatchRule} {primary : Table}
    {attachments : List Table} {m : Merged} (hprimary : primary.WellFormed)
    (hattachments : ∀ t ∈ attachments, t.WellFormed)
    (h : merge plan rule primary attachments = .ok m) :
    let keys := usableKeys plan
    let all := combined plan rule attachments
    m.table.rows = primary.rows.flatMap (Merged.nestedRows rule keys primary all) ∧
    (∀ row ∈ primary.rows, ∀ joined ∈ Merged.nestedRows rule keys primary all row,
      (Table.rowCell joined joinValueColumn = "" ↔
        Merged.isUnmatched rule keys all row = true) ∧
      (Merged.isUnmatched rule keys all row = false →
        ∃ key ∈ keys, Merged.agreeing rule all row key ≠ [] ∧
          joined.get? joinKeyColumn = some key ∧
          joined.get? joinValueColumn = some (Table.rowCell row key) ∧
          Text.isBlankText (Table.rowCell row key) = false)) ∧
    m.summary.total = m.table.size ∧
    (m.summary.get? unmatched).getD 0 =
      primary.rows.countP (Merged.isUnmatched rule keys all) +
        m.table.rows.countP Merged.namedUnmatched ∧
    (unmatched ∉ keys → (m.summary.get? unmatched).getD 0 =
      primary.rows.countP (Merged.isUnmatched rule keys all)) ∧
    ∀ parts : List Merged, (∀ part ∈ parts, part.Made) → ∀ key,
      (Merged.concat parts).summary.get? key = Dict.sumUnder (parts.map Merged.summary) key := by
  intro keys all
  have hm := eq_nestedLoop_of_merge hprimary hattachments h
  have hcount : (m.summary.get? unmatched).getD 0 =
      primary.rows.countP (Merged.isUnmatched rule keys all) +
        m.table.rows.countP Merged.namedUnmatched := by
    rw [Merged.getD_summary, hm]
    exact Merged.joinedBy_unmatched rule keys primary all
  refine ⟨congrArg (·.table.rows) hm, fun row _ joined => Merged.nestedRows_provenance,
    m.total_summary, hcount, ?_, ?_⟩
  · intro hkeys
    rw [hcount, hm, Merged.countP_namedUnmatched hkeys, Nat.add_zero]
  · intro parts hmade
    exact Merged.summary_concat fun part hpart => (hmade part hpart).wellFormed

/-- The primary table has a joining value of its own, which is overwritten. Its first row
fans out, the second one has a blank value under the first key and falls through to the
second, and the third has no match. -/
theorem merge_provenance_overwritten :
    let primary := Table.ofRecords [[("_join_value", "z"), ("phone", " 1"), ("acct", "A")],
      [("phone", " "), ("acct", "b")], [("phone", "2"), ("acct", "")]]
    let attachment := Table.ofRecords [[("phone", "1"), ("_join_key", "k")],
      [("phone", "1"), ("acct", "")], [("phone", ""), ("acct", "B")]]
    let plan := JoinPlan.ofKeys .singleSource [" phone", "acct"]
    let m := Merged.ofJoin .tolerant (usableKeys plan) primary
      (combined plan .tolerant [attachment])
    primary.WellFormed ∧ attachment.WellFormed ∧
      merge plan .tolerant primary [attachment] = .ok m ∧ unmatched ∉ usableKeys plan ∧
      m.table.rows.map (fun row => [row.get? joinKeyColumn, row.get? joinValueColumn]) =
        [[some "phone", some " 1"], [some "phone", some " 1"], [some "acct", some "b"],
          [some "unmatched", some ""]] ∧
      m.summary.entries = [("acct", 1), ("phone", 2), ("unmatched", 1)] ∧
      m.summary.total = m.table.size ∧
      (m.summary.get? unmatched).getD 0 =
        primary.rows.countP (Merged.isUnmatched .tolerant (usableKeys plan)
          (combined plan .tolerant [attachment])) ∧
      (Merged.concat [m, m]).summary.get? "phone" =
        Dict.sumUnder ([m, m].map Merged.summary) "phone" ∧
      Dict.sumUnder ([m, m].map Merged.summary) "phone" = some 4 := by
  intro primary attachment plan m
  have hprimary : primary.WellFormed := Table.ofRecords_wellFormed _
  have hattachment : attachment.WellFormed := Table.ofRecords_wellFormed _
  have hkeys : usableKeys plan ≠ [] := by decide +kernel
  have hmerge : merge plan .tolerant primary [attachment] = .ok m :=
    merge_singleSource _ primary [attachment] rfl hkeys
  have hapart : unmatched ∉ usableKeys plan := by decide +kernel
  have hmade : ∀ part ∈ [m, m], part.Made := by
    intro part hpart
    have hsame : part = m := by simpa using hpart
    exact hsame ▸ Merged.Made.merge hmerge
  obtain ⟨-, -, htotal, -, hunmatched, hconcat⟩ := merge_provenance hprimary
    (by simpa using hattachment) hmerge
  exact ⟨hprimary, hattachment, hmerge, hapart, by decide +kernel, by decide +kernel, htotal,
    hunmatched hapart, hconcat [m, m] hmade "phone", by decide +kernel⟩

/-- A key is stripped of blanks before it is used, so a key that is written in another way
can have the name of unmatched rows. Then a row that it joins is counted among them. -/
theorem exists_joined_named_unmatched :
    let primary := Table.ofRecords [[("unmatched", "7")], [("unmatched", "8")]]
    let attachment := Table.ofRecords [[("unmatched", "7"), ("dept", "law")]]
    let plan := JoinPlan.ofKeys .singleSource [" unmatched"]
    primary.WellFormed ∧ attachment.WellFormed ∧ unmatched ∉ plan.externalKeys ∧
      ∃ m, merge plan .tolerant primary [attachment] = .ok m ∧
        (m.summary.get? unmatched).getD 0 = 2 ∧
        primary.rows.countP (Merged.isUnmatched .tolerant (usableKeys plan)
          (combined plan .tolerant [attachment])) = 1 := by
  intro primary attachment plan
  have hkeys : usableKeys plan ≠ [] := by decide +kernel
  exact ⟨Table.ofRecords_wellFormed _, Table.ofRecords_wellFormed _, by decide +kernel, _,
    merge_singleSource _ primary [attachment] rfl hkeys, by decide +kernel, by decide +kernel⟩

end Collate
