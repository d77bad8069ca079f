import Collate.Proofs.Merge.Join
import Collate.Proofs.Table.Growth

/-!
Attachments in another order. Tables that are stacked in another order have the same
columns and the same rows, both in another order. Whether a primary row finds a match on a
key does not depend on the order of the rows, so the key that joins it stays the same, and
so do the rows that it becomes, apart from their order.
-/

namespace Collate

namespace Table

/-- Two tables with the same headers and rows, in different orders. -/
structure Reorders (a b : Table) : Prop where
  headers : a.headers.Perm b.headers
  rows : a.rows.Perm b.rows

/-! Stacking. -/

theorem WellFormed.empty_extend {t : Table} (h : t.WellFormed) : empty.extend t = t := by
  rw [empty_wellFormed.extend_eq, grown]
  simp only [empty, List.nil_append, eraseDups_of_nodup h.headers_nodup, h.map_fill]

/-- Stacked tables have all headers as they come and all rows, filled up. -/
theorem stack_eq_grown {tables : List Table} (hw : ∀ t ∈ tables, t.WellFormed) :
    stack tables = empty.grown (tables.flatMap (·.headers)) (tables.flatMap (·.rows)) := by
  rw [← empty_wellFormed.foldl_extend_eq hw]
  cases tables with
  | nil => rfl
  | cons first rest => rw [stack, List.foldl_cons, (hw first List.mem_cons_self).empty_extend]

/-- Tables may be stacked in any order. -/
theorem stack_reorders {tables others : List Table} (hw : ∀ t ∈ tables, t.WellFormed)
    (hperm : tables.Perm others) : (stack tables).Reorders (stack others) := by
  have hwo : ∀ t ∈ others, t.WellFormed := fun t ht => hw t (hperm.mem_iff.mpr ht)
  have hheaders := perm_eraseDups (hperm.flatMap_right (·.headers))
  have hfill := fill_congr fun header => hheaders.mem_iff
  rw [stack_eq_grown hw, stack_eq_grown hwo]
  constructor
  · exact hheaders
  · simp only [grown, empty, List.nil_append, hfill]
    exact (hperm.flatMap_right (·.rows)).map _

end Table

namespace Merged

/-! Joining. -/

variable {a b primary : Table}

theorem joinedHeaders_perm (h : a.Reorders b) :
    (joinedHeaders primary a).Perm (joinedHeaders primary b) := by
  apply List.Perm.append_right
  apply List.Perm.append_left
  exact (h.headers.filter _).filter _

/-- The order of columns and rows of the attachments is not seen in a joined row. -/
theorem joinedRow_of_reorders (h : a.Reorders b) (key value : String) (row : Row)
    (other : Option Row) :
    joinedRow primary a key value row other = joinedRow primary b key value row other :=
  Table.rowOf_congr (fun _ => (joinedHeaders_perm h).mem_iff) fun _ _ => rfl

theorem agreeing_perm (h : a.Reorders b) (rule : MatchRule) (row : Row) (key : String) :
    (agreeing rule a row key).Perm (agreeing rule b row key) :=
  h.rows.filter _

/-- A primary row becomes the same rows, in another order. -/
theorem nestedRows_perm (h : a.Reorders b) (rule : MatchRule) (keys : List String)
    (primary : Table) (row : Row) :
    (nestedRows rule keys primary a row).Perm (nestedRows rule keys primary b row) := by
  -- a key has matches in one order if it has some in the other, so the same one decides
  have hfind : keys.find? (fun key => !(agreeing rule a row key).isEmpty) =
      keys.find? fun key => !(agreeing rule b row key).isEmpty := by
    congr 1
    funext key
    rw [(agreeing_perm h rule row key).isEmpty_eq]
  unfold nestedRows
  rw [hfind]
  cases keys.find? fun key => !(agreeing rule b row key).isEmpty with
  | none => rw [joinedRow_of_reorders h]
  | some key =>
    simp only [joinedRow_of_reorders h]
    exact (agreeing_perm h rule row key).map _

end Merged

theorem combined_reorders {plan : JoinPlan} (rule : MatchRule) {attachments others : List Table}
    (hw : ∀ t ∈ attachments, t.WellFormed) (htype : plan.itemType = .singleSource)
    (hperm : attachments.Perm others) :
    (combined plan rule attachments).Reorders (combined plan rule others) := by
  have hrenamed : ∀ t ∈ attachments.map (·.rename plan.aliases), t.WellFormed := by
    intro t ht
    obtain ⟨old, hold, rfl⟩ := List.mem_map.mp ht
    exact (hw old hold).rename plan.aliases
  simp only [combined, htype]
  exact Table.stack_reorders hrenamed (hperm.map _)

/-- Attachments that are stacked may come in any order. Both merges succeed and have the
same columns, and each primary row becomes the same rows in both, perhaps in another
order, all of which name the same key and have the same joining value. -/
theorem merge_perm {plan : JoinPlan} (rule : MatchRule) {primary : Table}
    {attachments others : List Table} (hprimary : primary.WellFormed)
    (hattachments : ∀ t ∈ attachments, t.WellFormed) (hperm : attachments.Perm others)
    (htype : plan.itemType = .singleSource) (hkeys : usableKeys plan ≠ []) :
    let images := fun tables =>
      Merged.nestedRows rule (usableKeys plan) primary (combined plan rule tables)
    ∃ m m' : Merged, merge plan rule primary attachments = .ok m ∧
      merge plan rule primary others = .ok m' ∧
      m.table.headers.Perm m'.table.headers ∧
      m.table.rows = primary.rows.flatMap (images attachments) ∧
      m'.table.rows = primary.rows.flatMap (images others) ∧
      ∀ row ∈ primary.rows,
        images attachments row ≠ [] ∧ (images attachments row).Perm (images others row) ∧
        ∃ key value, ∀ joined, joined ∈ images attachments row ∨ joined ∈ images others row →
          joined.get? joinKeyColumn = some key ∧ joined.get? joinValueColumn = some value := by
  intro images
  have hothers : ∀ t ∈ others, t.WellFormed := fun t ht =>
    hattachments t (hperm.mem_iff.mpr ht)
  have hreorders := combined_reorders rule hattachments htype hperm
  have hmerge := merge_singleSource rule primary attachments htype hkeys
  have hmerge' := merge_singleSource rule primary others htype hkeys
  rw [Merged.ofJoin_eq_nestedLoop rule _ hprimary (combined_wellFormed plan rule hattachments)]
    at hmerge
  rw [Merged.ofJoin_eq_nestedLoop rule _ hprimary (combined_wellFormed plan rule hothers)]
    at hmerge'
  refine ⟨_, _, hmerge, hmerge', Merged.joinedHeaders_perm hreorders, rfl, rfl, ?_⟩
  intro row _
  have hrows := Merged.nestedRows_perm hreorders rule (usableKeys plan) primary row
  obtain ⟨key, value, hne, hmarks⟩ := Merged.nestedRows_marked rule (usableKeys plan) primary
    (combined plan rule attachments) row
  refine ⟨hne, hrows, key, value, ?_⟩
  rintro joined (hjoined | hjoined)
  · exact hmarks joined hjoined
  · exact hmarks joined (hrows.mem_iff.mpr hjoined)

/-- Two attachments with different columns, of which one calls the first key by another
name. The first row fans out over both, in an order that changes with theirs, the second
one falls through to the second key, which only one of them has, and the third stays
alone. -/
theorem merge_perm_fan_out :
    let primary := Table.ofRecords [[("phone", "1"), ("acct", "A")], [("phone", "2"), ("acct", "b")],
      [("phone", "3"), ("acct", "")]]
    let calls := Table.ofRecords [[("tel", "1 "), ("dept", "law")]]
    let books := Table.ofRecords [[("acct", "B"), ("phone", ""), ("town", "N")],
      [("acct", "Z"), ("phone", "1"), ("town", "S")]]
    let plan := { JoinPlan.ofKeys .singleSource ["phone", "acct"] with
      aliases := Dict.ofList [("tel", "phone")] }
    let cells := fun tables => (primary.rows.flatMap (Merged.nestedRows .tolerant
      (usableKeys plan) primary (combined plan .tolerant tables))).map fun row =>
        ["phone", "dept", "town", "_join_key", "_join_value"].map (Table.rowCell row)
    primary.WellFormed ∧ (∀ t ∈ [calls, books], t.WellFormed) ∧
      [calls, books].Perm [books, calls] ∧ usableKeys plan ≠ [] ∧
      (∃ m m' : Merged, merge plan .tolerant primary [calls, books] = .ok m ∧
        merge plan .tolerant primary [books, calls] = .ok m' ∧
        m.table.headers.Perm m'.table.headers ∧
        m.table.rows.map (fun row =>
          ["phone", "dept", "town", "_join_key", "_join_value"].map (Table.rowCell row)) =
            cells [calls, books]) ∧
      cells [calls, books] = [["1", "law", "", "phone", "1"], ["1", "", "S", "phone", "1"],
        ["2", "", "N", "acct", "b"], ["3", "", "", "unmatched", ""]] ∧
      cells [books, calls] = [["1", "", "S", "phone", "1"], ["1", "law", "", "phone", "1"],
        ["2", "", "N", "acct", "b"], ["3", "", "", "unmatched", ""]] := by
  intro primary calls books plan cells
  have hprimary : primary.WellFormed := Table.ofRecords_wellFormed _
  have hattachments : ∀ t ∈ [calls, books], t.WellFormed := by
    simp only [List.forall_mem_cons]
    exact ⟨Table.ofRecords_wellFormed _, Table.ofRecords_wellFormed _, List.forall_mem_nil _⟩
  have hperm : [calls, books].Perm [books, calls] := List.Perm.swap ..
  have hkeys : usableKeys plan ≠ [] := by decide +kernel
  obtain ⟨m, m', hm, hm', hheaders, hrows, -⟩ :=
    merge_perm .tolerant hprimary hattachments hperm rfl hkeys
  exact ⟨hprimary, hattachments, hperm, hkeys, ⟨m, m', hm, hm', hheaders, by rw [hrows]⟩,
    by decide +kernel, by decide +kernel⟩

end Collate
