import Collate.Proofs.Merge.Concat

/-!
A primary table can be merged in parts. What a primary row becomes depends on the
attachments and on the headers of its table, not on the other rows of it, and tables
merged from parts with the same headers have the same headers again; so putting the
merged parts one after the other gives what merging them together gives.
-/

namespace Collate

namespace Merged

variable {rule : MatchRule} {keys : List String} {attachments : Table}

/-- The headers of a joined table, if the primary one has no provenance columns. -/
theorem joinedHeaders_of_plain {primary : Table}
    (hplain : ∀ h ∈ primary.headers, isProvenance h = false) :
    joinedHeaders primary attachments = primary.headers ++ broughtHeaders primary attachments ++
      [joinKeyColumn, joinValueColumn] := by
  rw [joinedHeaders, List.filter_eq_self.mpr]
  intro h hh
  have hprov := mem_provenance_iff.mp hh
  have hnot : h ∉ primary.headers := fun hmem => by simp [hplain h hmem] at hprov
  simp [Table.hasHeader, hnot]

/-- The headers of parts that have the same ones, provenance columns last. -/
theorem allHeaders_of_same {plain : List String} {parts : List Merged} (hne : parts ≠ [])
    (hplain : ∀ h ∈ plain, isProvenance h = false) (hnodup : plain.Nodup)
    (hsame : ∀ m ∈ parts, m.table.headers = plain ++ [joinKeyColumn, joinValueColumn]) :
    allHeaders parts = plain ++ [joinKeyColumn, joinValueColumn] := by
  have hpart : ∀ m ∈ parts, m.table.headers.filter (fun h => !isProvenance h) = plain := by
    intro m hm
    rw [hsame m hm, filter_plain hplain]
  have hrepeated : (parts.flatMap fun m => m.table.headers.filter fun h => !isProvenance h) =
      parts.flatMap fun _ => plain := List.flatMap_congr hpart
  have honce : (parts.flatMap fun _ => plain).eraseDups = plain.eraseDups := by
    cases parts with
    | nil => exact absurd rfl hne
    | cons first rest =>
      apply eraseDups_append_of_subset
      intro h hh
      obtain ⟨_, -, hmem⟩ := List.mem_flatMap.mp hh
      exact hmem
  rw [allHeaders, plainHeaders, List.filter_flatMap, hrepeated, honce, eraseDups_of_nodup hnodup]

/-- Parts with the same headers are put one after the other as they stand, if those
end with the provenance columns. -/
theorem concat_of_same {plain : List String} {parts : List Merged} (hne : parts ≠ [])
    (hplain : ∀ h ∈ plain, isProvenance h = false) (hw : ∀ m ∈ parts, m.table.WellFormed)
    (hsame : ∀ m ∈ parts, m.table.headers = plain ++ [joinKeyColumn, joinValueColumn]) :
    concat parts =
      ⟨⟨plain ++ [joinKeyColumn, joinValueColumn], parts.flatMap (·.table.rows)⟩⟩ := by
  have hnodup : plain.Nodup := by
    obtain ⟨first, hfirst⟩ := List.exists_mem_of_ne_nil parts hne
    have hall := (hw first hfirst).headers_nodup
    rw [hsame first hfirst] at hall
    exact hall.of_append_left
  rw [concat_eq hne hw, allHeaders_of_same hne hplain hnodup hsame]
  congr 2
  apply List.flatMap_congr
  intro m hm
  rw [← hsame m hm, (hw m hm).map_fill]

/-- What a primary row becomes depends on the headers of its table alone. -/
theorem nestedLoop_of_same (rule : MatchRule) (keys : List String) {primary other : Table}
    (hsame : primary.headers = other.headers) :
    nestedLoop rule keys primary attachments =
      ⟨⟨joinedHeaders other attachments,
        primary.rows.flatMap (nestedRows rule keys other attachments)⟩⟩ := by
  obtain ⟨headers, rows⟩ := primary
  obtain ⟨_, others⟩ := other
  cases hsame
  rfl

/-- Joining the parts of a primary table is joining the whole. -/
theorem concat_ofJoin (rule : MatchRule) (keys headers : List String) {shards : List Table}
    (hne : shards ≠ []) (hw : ∀ p ∈ shards, p.WellFormed)
    (hsame : ∀ p ∈ shards, p.headers = headers)
    (hplain : ∀ h ∈ headers, isProvenance h = false) (ha : attachments.WellFormed) :
    concat (shards.map fun p => ofJoin rule keys p attachments) =
      ofJoin rule keys (Table.stack shards) attachments := by
  have hstack := Table.stack_of_same hne hw hsame
  have hwhole := Table.stack_wellFormed hw
  generalize Table.stack shards = whole at hstack hwhole ⊢
  have hheaders : whole.headers = headers := congrArg Table.headers hstack
  have hrows : whole.rows = shards.flatMap (·.rows) := congrArg Table.rows hstack
  have hjoined : joinedHeaders whole attachments = whole.headers ++
      broughtHeaders whole attachments ++ [joinKeyColumn, joinValueColumn] :=
    joinedHeaders_of_plain fun h hmem => hplain h (hheaders ▸ hmem)
  have hplainJoined : ∀ h ∈ whole.headers ++ broughtHeaders whole attachments,
      isProvenance h = false := by
    intro h hmem
    rcases List.mem_append.mp hmem with hheader | hbrought
    · exact hplain h (hheaders ▸ hheader)
    · exact (mem_broughtHeaders.mp hbrought).2.2
  have hpart : ∀ p ∈ shards, ofJoin rule keys p attachments =
      ⟨⟨joinedHeaders whole attachments,
        p.rows.flatMap (nestedRows rule keys whole attachments)⟩⟩ := by
    intro p hp
    rw [ofJoin_eq_nestedLoop rule keys (hw p hp) ha,
      nestedLoop_of_same rule keys ((hsame p hp).trans hheaders.symm)]
  have hpartHeaders : ∀ m ∈ shards.map (fun p => ofJoin rule keys p attachments),
      m.table.WellFormed ∧ m.table.headers = whole.headers ++
        broughtHeaders whole attachments ++ [joinKeyColumn, joinValueColumn] := by
    intro m hm
    obtain ⟨p, hp, rfl⟩ := List.mem_map.mp hm
    exact ⟨ofJoin_wellFormed rule keys p attachments, by rw [hpart p hp, hjoined]⟩
  have hpartRows : (shards.map fun p => ofJoin rule keys p attachments).flatMap
      (·.table.rows) = whole.rows.flatMap (nestedRows rule keys whole attachments) := by
    rw [List.flatMap_map, hrows, List.flatMap_assoc]
    exact List.flatMap_congr fun p hp => congrArg (·.table.rows) (hpart p hp)
  rw [concat_of_same (by simpa using hne) hplainJoined (fun m hm => (hpartHeaders m hm).1)
    (fun m hm => (hpartHeaders m hm).2), hpartRows, ofJoin_eq_nestedLoop rule keys hwhole ha,
    nestedLoop, hjoined]

end Merged

/-- Merging a primary table is merging its parts and putting the results one after the
other; where a part cannot be merged the whole cannot, for the same reason. -/
theorem merge_extend (plan : JoinPlan) (rule : MatchRule) {first second : Table}
    {attachments : List Table} (hfirst : first.WellFormed) (hsecond : second.WellFormed)
    (hattachments : ∀ t ∈ attachments, t.WellFormed) (hsame : first.headers = second.headers)
    (hplain : ∀ h ∈ first.headers, isProvenance h = false) :
    merge plan rule (first.extend second) attachments = (do
      let before ← merge plan rule first attachments
      let behind ← merge plan rule second attachments
      return Merged.concat [before, behind]) := by
  unfold merge
  cases usableKeys plan with
  | nil => rfl
  | cons key others =>
    cases hcombine : combine plan rule attachments with
    | error e => rfl
    | ok all =>
      have hall : all.WellFormed :=
        eq_combined_of_combine hcombine ▸ combined_wellFormed plan rule hattachments
      have hjoin := Merged.concat_ofJoin rule (key :: others) first.headers
        (List.cons_ne_nil first [second])
        (List.forall_mem_cons.mpr ⟨hfirst, by simpa using hsecond⟩)
        (List.forall_mem_cons.mpr ⟨rfl, by simpa using hsame.symm⟩) hplain hall
      exact congrArg Except.ok hjoin.symm

/-- The first part fans out on the first key. In the second one a row falls through to
the second key and another one stays alone; a provenance column of the attachment is
not taken over. -/
theorem merge_extend_fallback :
    let first := Table.ofRecords [[("acct", "A"), ("phone", "1")]]
    let second := Table.ofRecords [[("acct", "b "), ("phone", "")], [("acct", "C"), ("phone", "2")]]
    let attachment := Table.ofRecords [[("phone", "1"), ("_join_key", "k"), ("dept", "ops")],
      [("phone", "1"), ("acct", "B"), ("dept", "law")]]
    let plan := JoinPlan.ofKeys .singleSource ["phone", "acct"]
    first.WellFormed ∧ second.WellFormed ∧ attachment.WellFormed ∧
      first.headers = second.headers ∧ (∀ h ∈ first.headers, isProvenance h = false) ∧
      (merge plan .tolerant (first.extend second) [attachment]).toOption.map (fun m =>
        (m.table.headers, m.table.rows.map fun row => m.table.headers.map (Table.rowCell row))) =
        some (["acct", "phone", "dept", "_join_key", "_join_value"],
          [["A", "1", "ops", "phone", "1"], ["A", "1", "law", "phone", "1"],
            ["b ", "", "law", "acct", "b "], ["C", "2", "", "unmatched", ""]]) := by
  intro first second attachment plan
  have hfirst : first.WellFormed := Table.ofRecords_wellFormed _
  have hsecond : second.WellFormed := Table.ofRecords_wellFormed _
  have hattachment : attachment.WellFormed := Table.ofRecords_wellFormed _
  have hsame : first.headers = second.headers := by decide +kernel
  have hplain : ∀ h ∈ first.headers, isProvenance h = false := by decide +kernel
  refine ⟨hfirst, hsecond, hattachment, hsame, hplain, ?_⟩
  rw [merge_extend plan .tolerant hfirst hsecond (by simpa using hattachment) hsame hplain]
  decide +kernel

end Collate
