import Collate.Proofs.Service.Mergeable
import Collate.Proofs.Service.Plans

/-!
Two ways to count what an item brings besides its primary table. Its type, and with it that
of its join plan, goes by the number of files that are attachments by role. The tables that
are merged into the primary one come from all files but the first primary one. For items
with one primary file this is the same; an item with more of them may be merged as one of a
single source although it has several tables.
-/

namespace Collate

/-! The type of a plan. -/

/-- A lookup gives a plan of the item type that was asked for, whatever the store has on
record. -/
theorem Store.plan?_typed {s : Store} {company documentType : String} {itemType : ItemType}
    {plan : JoinPlan} (h : s.plan? company documentType itemType = some plan) :
    plan.itemType = itemType := by
  have hbest : ∀ other : JoinPlan,
      ((s.bestTemplate? company documentType itemType).map fun t =>
        JoinPlan.ofConfig t.itemType t.config (.template t.id)) = some other →
      other.itemType = itemType := by
    intro other hother
    obtain ⟨t, ht, rfl⟩ := Option.map_eq_some_iff.mp hother
    exact (selectTemplate_leads ht).applies.itemType
  unfold plan? resolvePlan at h
  split at h
  · exact hbest plan h
  · split at h
    · exact hbest plan h
    · split at h
      · rename_i htype
        cases h
        exact htype
      · exact hbest plan h

/-- Tables of several sources are chained on a key, or not put together at all. -/
theorem combine_multiSource {plan : JoinPlan} {rule : MatchRule} {attachments : List Table}
    {combined : Table} (htype : plan.itemType = .multiSource)
    (h : combine plan rule attachments = .ok combined) :
    ∃ key, presentText? plan.internalKey = some key ∧
      combined = Table.chain rule key (attachments.map (·.rename plan.aliases)) := by
  simp only [combine, htype] at h
  split at h
  · rename_i key hkey
    cases h
    exact ⟨key, hkey, rfl⟩
  · cases h

namespace Service

open Procedure

variable {policy : Policy} {options : FlattenOptions} {d : Desk} {i : Item} {o : Order}

/-- The plan for an item has the type of the item. -/
theorem planFor_typed {s : Store} {plan : JoinPlan} (h : planFor s o i = .ok plan) :
    plan.itemType = i.itemType := by
  unfold planFor at h
  split at h
  · rename_i found keys hfound hkeys
    cases h
    exact (Store.plan?_typed hfound : found.itemType = i.itemType)
  · rename_i found hfound hkeys
    cases h
    exact Store.plan?_typed hfound
  · cases h
    rfl
  · cases h

theorem itemType_eq_multiSource_iff : i.itemType = .multiSource ↔ 1 < i.attachments.length := by
  unfold Item.itemType ItemType.forAttachments
  split
  · rename_i hmany
    exact iff_of_true rfl hmany
  · rename_i hfew
    exact iff_of_false nofun hfew

/-! The tables of an item. -/

/-- All tables but the primary one are attachments. -/
theorem splitPrimary_length {tables : List (FileRole × Table)}
    (h : (splitPrimary tables).1.isSome = true) :
    (splitPrimary tables).2.length + 1 = tables.length := by
  induction tables with
  | nil => cases h
  | cons entry rest ih =>
    obtain ⟨role, table⟩ := entry
    cases role with
    | primary => simp only [splitPrimary, List.length_map, List.length_cons]
    | attachment =>
      have hrest := ih h
      simp only [splitPrimary, List.length_cons]
      omega

/-- Every file of an item but the first primary one gives a table to be merged. -/
theorem ofResults_attachments {results : List ExtractionResult} {tables : ItemTables}
    (hprimary : i.primaryFile?.isSome = true)
    (h : ItemTables.ofResults options i results = .ok tables) :
    tables.attachments.length + 1 = i.files.length := by
  simp only [ItemTables.ofResults, Except.bind_eq_ok, Except.ok.injEq] at h
  obtain ⟨entries, hentries, rfl⟩ := h
  obtain ⟨file, hfile⟩ := Option.isSome_iff_exists.mp hprimary
  have hforall := resultTables_ok hentries
  obtain ⟨table, hfirst, -⟩ := splitPrimary_first hforall hfile
  dsimp only
  rw [splitPrimary_length (by rw [hfirst]; rfl), hforall.length_eq]

/-- A primary file is no attachment. -/
theorem attachments_lt_files (hprimary : i.primaryFile?.isSome = true) :
    i.attachments.length < i.files.length := by
  obtain ⟨file, hfile⟩ := Option.isSome_iff_exists.mp hprimary
  rw [Item.attachments, List.length_filter_lt_length_iff_exists]
  refine ⟨file, List.mem_of_find?_eq_some hfile, ?_⟩
  have hrole : file.role = .primary := by simpa using List.find?_some hfile
  simp [hrole]

/-- The tables of a completed item can be loaded, one for each of its files, and its plan has
its type. The type says that there are several tables besides the primary one just when there
are, if and only if the item has two attachments or more, or two files at most. With two
attachments or more, all tables are chained on the internal key of the plan. -/
theorem Served.itemType_agrees_iff {issued : List String} (h : Served (Handed options) d issued)
    (hi : i ∈ d.store.items) (hcompleted : i.status = .completed) : ∃ tables,
      (∀ policy, policy.flatten = options → (loadTables policy i).run d = (.ok tables, d)) ∧
      tables.attachments.length + 1 = i.files.length ∧
      (∀ o plan, ((joinPlan o i).run d).1 = .ok plan → plan.itemType = i.itemType) ∧
      ((i.itemType = .multiSource ↔ 1 < tables.attachments.length) ↔
        1 < i.attachments.length ∨ i.files.length ≤ 2) ∧
      (1 < i.attachments.length → ∀ o plan, ((joinPlan o i).run d).1 = .ok plan →
        ∀ rule combined, combine plan rule tables.attachments = .ok combined →
          ∃ key, presentText? plan.internalKey = some key ∧
            combined = Table.chain rule key (tables.attachments.map (·.rename plan.aliases))) := by
  obtain ⟨o, ho⟩ := h.tidy.order?_placed hi
  have hpassed := h.allPassed i hi hcompleted
  obtain ⟨-, tables, -, htables, -⟩ := hpassed.tables h.tidy ho
  have hlength := ofResults_attachments hpassed.primary htables
  have hfewer := attachments_lt_files hpassed.primary
  have htyped : ∀ o plan, ((joinPlan o i).run d).1 = .ok plan → plan.itemType = i.itemType := by
    intro o plan hplan
    rw [joinPlan_run] at hplan
    exact planFor_typed hplan
  refine ⟨tables, ?_, hlength, htyped, ?_, ?_⟩
  · rintro policy rfl
    rw [loadTables_run, htables]
  · rw [itemType_eq_multiSource_iff]
    by_cases hmany : 1 < i.attachments.length
    · exact iff_of_true (iff_of_true hmany (by omega)) (.inl hmany)
    · simp only [hmany, false_iff, false_or]
      omega
  · intro hmany o plan hplan rule combined hcombined
    have hmulti := itemType_eq_multiSource_iff.mpr hmany
    exact combine_multiSource ((htyped o plan hplan).trans hmulti) hcombined

/-! An order whose one item has two primary files and an attachment. A template would have
several tables chained on `id`. -/

private def pagesPolicy : Policy := ⟨.standard, .tolerant, ⟨"b"⟩, .local, false⟩

private def chainTemplate : Template :=
  ⟨1, "chain", .multiSource, none, none, 1, ⟨none, ["id"], some "id", Dict.empty⟩⟩

private def pagesDesk : Desk := { Desk.empty with
  store := { Store.empty with templates := [chainTemplate] }
  disk := ⟨[["b"]], [(["b", "a.json"], Text.Utf8.ofText "\x7b\"id\":\"1\"\x7d"),
    (["b", "b.json"], Text.Utf8.ofText "\x7b\"id\":\"1\",\"x\":\"2\"\x7d"),
    (["b", "c.json"], Text.Utf8.ofText "\x7b\"id\":\"1\",\"y\":\"3\"\x7d")]⟩ }

private def pagesFile (role : FileRole) (filename : String) : Call :=
  .attachFile (FileRef.create filename (Desk.idOf 1) role filename 0 filename)

private def pagesCalls : List Call :=
  [.createOrder none, .setMappingKeys (Desk.idOf 0) ["id"],
    .addItem (Desk.idOf 0) "acme" "invoice" "scan",
    pagesFile .primary "a.json", pagesFile .primary "b.json", pagesFile .attachment "c.json"]

private def pagesDraft : Desk := pagesCalls.foldl (fun d c => c.after pagesPolicy d) pagesDesk

private def pagesSent : Desk := (Call.submit (Desk.idOf 0)).after pagesPolicy pagesDraft

private def pagesItem : Item :=
  (pagesSent.store.item? (Desk.idOf 1)).getD (Item.create "" "" "" "" "" ⟨0, 0⟩)

private def pagesOrder : Order :=
  (pagesSent.store.order? (Desk.idOf 0)).getD (Order.create "" none)

private def pagesDone : Desk := { pagesSent with
  store := pagesSent.store.processed pagesItem pagesSent.clock
    (examination pagesPolicy pagesSent.disk pagesItem pagesOrder.mappingKeys
      pagesSent.calls) }

private def doneItem : Item :=
  (pagesDone.store.item? (Desk.idOf 1)).getD (Item.create "" "" "" "" "" ⟨0, 0⟩)

private def doneOrder : Order :=
  (pagesDone.store.order? (Desk.idOf 0)).getD (Order.create "" none)

private theorem served_pagesDone :
    ∃ issued, Served (Handed .standard) pagesDone issued := by
  have hstart : Served (Handed .standard) Desk.empty [] := .start rfl
  have hseeded : Served (Handed .standard) pagesDesk [] := hstart.meanwhile ⟨rfl, rfl, rfl⟩ rfl
  have hallowed : ∀ c ∈ pagesCalls, ∀ issued, Handed .standard pagesPolicy c issued := by
    simp [pagesCalls, pagesFile, Handed, Call.Allowed, pagesPolicy]
  obtain ⟨issued, hdraft⟩ : ∃ issued, Served (Handed .standard) pagesDraft issued :=
    hseeded.calls pagesPolicy pagesCalls hallowed
  have hasked : (Call.submit (Desk.idOf 0)).asks pagesPolicy pagesDraft = [Desk.idOf 1] := by
    decide +kernel
  have hsent := hdraft.call pagesPolicy (.submit (Desk.idOf 0)) ⟨rfl, trivial⟩
  rw [hasked] at hsent
  have hitem : pagesSent.store.item? pagesItem.id = some pagesItem := by decide +kernel
  have hpending : pagesItem.status = .pending := by decide +kernel
  have horder : pagesSent.store.order? pagesItem.orderId = some pagesOrder := by
    decide +kernel
  have hid : pagesItem.id ∈ issued ++ [Desk.idOf 1] := by
    have hsame : pagesItem.id = Desk.idOf 1 := by decide +kernel
    simp [hsame]
  exact hsent.processed pagesPolicy rfl hid hitem hpending horder

private theorem doneItem_completed : doneItem ∈ pagesDone.store.items ∧
    doneItem.status = .completed := by
  have hitem : pagesDone.store.item? (Desk.idOf 1) = some doneItem := by decide +kernel
  exact ⟨(Store.item?_mem hitem).1, by decide +kernel⟩

/-- Of the item with two primary files and one attachment, the type and the tables disagree. -/
theorem Served.itemType_agrees_iff_scanned : ∃ issued,
    Served (Handed .standard) pagesDone issued ∧ doneItem ∈ pagesDone.store.items ∧
      doneItem.status = .completed ∧ doneItem.files.length = 3 ∧
      ∃ tables, (loadTables pagesPolicy doneItem).run pagesDone = (.ok tables, pagesDone) ∧
        tables.attachments.length + 1 = doneItem.files.length ∧
        ((doneItem.itemType = .multiSource ↔ 1 < tables.attachments.length) ↔
          1 < doneItem.attachments.length ∨ doneItem.files.length ≤ 2) := by
  obtain ⟨issued, h⟩ := served_pagesDone
  obtain ⟨hi, hcompleted⟩ := doneItem_completed
  obtain ⟨tables, hload, hlength, -, hagrees, -⟩ := h.itemType_agrees_iff hi hcompleted
  exact ⟨issued, h, hi, hcompleted, by decide +kernel, tables, hload pagesPolicy rfl, hlength,
    hagrees⟩

private def doneTables : ItemTables :=
  match ItemTables.ofResults .standard doneItem (pagesDone.store.recordedFor doneItem.id) with
  | .ok tables => tables
  | .error _ => ⟨Table.empty, []⟩

private def donePlan : JoinPlan := .ofKeys .singleSource ["id"]

private def doneMerged : Merged :=
  match merge donePlan .tolerant doneTables.primary doneTables.attachments with
  | .ok merged => merged
  | .error _ => Merged.empty

/-- Two tables besides the primary one are loaded for an item whose plan is for a single one.
They are put on top of each other, so that the row of the document is there twice. -/
theorem exists_side_tables_stacked : ∃ d issued i o plan tables merged,
    Served (Handed .standard) d issued ∧ i ∈ d.store.items ∧ i.status = .completed ∧
      d.store.order? i.orderId = some o ∧
      (joinPlan o i).run d = (.ok plan, d) ∧ plan.itemType = .singleSource ∧
      (loadTables pagesPolicy i).run d = (.ok tables, d) ∧ tables.attachments.length = 2 ∧
      ((runMerge pagesPolicy o.id).run d).1 = .ok merged ∧
      merged.table.headers = ["id", "x", "y", "_join_key", "_join_value"] ∧
      merged.table.rows.map (fun row => (Table.rowCell row "x", Table.rowCell row "y")) =
        [("2", ""), ("", "3")] := by
  obtain ⟨issued, h⟩ := served_pagesDone
  obtain ⟨hi, hcompleted⟩ := doneItem_completed
  have horder : pagesDone.store.order? doneItem.orderId = some doneOrder := by decide +kernel
  have hid : pagesDone.store.order? doneOrder.id = some doneOrder := by decide +kernel
  have hmapping : doneOrder.status = .mapping := by decide +kernel
  have hplan : planFor pagesDone.store doneOrder doneItem = .ok donePlan := by decide +kernel
  have htables : ItemTables.ofResults .standard doneItem
      (pagesDone.store.resultsOf doneItem.id) = .ok doneTables := by
    rw [ofResults_resultsOf h.tidy.toRecorded]
    decide +kernel
  have hmerged : mergedItem pagesPolicy pagesDone doneOrder doneItem = .ok doneMerged := by
    rw [mergedItem, ofResults_resultsOf h.tidy.toRecorded]
    decide +kernel
  have hvalue : ((runMerge pagesPolicy doneOrder.id).run pagesDone).1 =
      .ok (Merged.concat [doneMerged]) := by
    have hone : (pagesDone.store.itemsOf doneOrder.id).filter (·.status == .completed) =
        [doneItem] := by decide +kernel
    rw [runMerge_value hid hmapping, hone, List.mapM_cons, hmerged]
    rfl
  refine ⟨pagesDone, issued, doneItem, doneOrder, donePlan, doneTables,
    Merged.concat [doneMerged], h, hi, hcompleted, horder, ?_, rfl, ?_, ?_,
    hvalue, ?_, ?_⟩
  · rw [joinPlan_run, hplan]
  · rw [loadTables_run]
    exact congrArg (·, pagesDone) htables
  · decide +kernel
  · decide +kernel
  · decide +kernel

end Service

end Collate
