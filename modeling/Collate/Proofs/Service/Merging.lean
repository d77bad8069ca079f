import Collate.Proofs.Service.Settling

/-!
Merging an order, without a desk. An order that awaits its merge is merged item
by item, and nothing that comes after can fail. So a merge fails where one of the
completed items cannot be merged: for want of a plan or of keys, for lack of a
table, or at the reference data. Then it leaves a note, and else its table.
-/

namespace Collate

namespace Store

/-- Whether an order may be merged: it awaits its merge, or it is done and was
merged before. -/
def AdmitsMerge (s : Store) (o : Order) : Prop :=
  o.status = .mapping ∨ o.status = .completed ∧ s.merged.contains o.id = true

/-- A drafted order does not admit it. -/
theorem AdmitsMerge.sent {s : Store} {o : Order} (h : s.AdmitsMerge o) : o.status ≠ .draft := by
  rcases h with hmapping | ⟨hcompleted, -⟩
  · simp [hmapping]
  · simp [hcompleted]

def noted (s : Store) (id : String) (error : Option String) : Store :=
  s.updateOrder id fun o => { o with error }

/-- The store once the merged table of an order was kept that had a status. -/
def kept (s : Store) (id : String) (status : OrderStatus) (table : Merged) : Store :=
  let noted := ({ s with merged := s.merged.insert id table }).noted id none
  if status = .mapping then noted.updateOrder id fun o => { o with status := .completed }
  else noted

end Store

namespace Service

open Procedure

variable {policy : Policy} {d : Desk} {o : Order}

def planFor (s : Store) (o : Order) (i : Item) : Except ServiceFault JoinPlan :=
  match s.plan? i.company i.documentType i.itemType, o.mappingKeys with
  | some plan, some keys => .ok (plan.withKeys keys)
  | some plan, none => .ok plan
  | none, some keys => .ok (JoinPlan.ofKeys i.itemType keys)
  | none, none => .error (.order (.mappingNotFound i.id i.company i.documentType))

theorem joinPlan_run (o : Order) (i : Item) (d : Desk) :
    (joinPlan o i).run d = (planFor d.store o i, d) := by
  rw [joinPlan, run_bind_ok (planOf?_run i d), planFor]
  cases d.store.plan? i.company i.documentType i.itemType with
  | some plan =>
    cases o.mappingKeys with
    | some keys => rfl
    | none => rfl
  | none =>
    cases o.mappingKeys with
    | some keys => rfl
    | none => rfl

theorem loadTables_run (policy : Policy) (i : Item) (d : Desk) : (loadTables policy i).run d =
    (ItemTables.ofResults policy.flatten i (d.store.resultsOf i.id), d) := rfl

/-- The attachments of an item, with the reference data if the plan names any. -/
def withMaster (disk : Disk) (plan : JoinPlan) (tables : ItemTables) :
    Except ServiceFault (List Table) :=
  match plan.masterCsv with
  | some path => ((Table.ofFile disk path).mapError .table).map fun t => tables.attachments ++ [t]
  | none => .ok tables.attachments

def mergedItem (policy : Policy) (d : Desk) (o : Order) (i : Item) :
    Except ServiceFault Merged := do
  let plan ← planFor d.store o i
  let tables ← ItemTables.ofResults policy.flatten i (d.store.resultsOf i.id)
  let attachments ← withMaster d.disk plan tables
  (merge plan policy.rule tables.primary attachments).mapError .merge

theorem mergeItem_run (policy : Policy) (o : Order) (i : Item) (d : Desk) :
    (mergeItem policy o i).run d = (mergedItem policy d o i, d) := by
  rw [mergeItem, run_bind, joinPlan_run, mergedItem]
  cases planFor d.store o i with
  | error fault => rfl
  | ok plan =>
    dsimp only
    rw [run_bind, loadTables_run]
    cases ItemTables.ofResults policy.flatten i (d.store.resultsOf i.id) with
    | error fault => rfl
    | ok tables =>
      change _ = (withMaster d.disk plan tables >>= fun attachments =>
        (merge plan policy.rule tables.primary attachments).mapError .merge, d)
      dsimp only
      rw [withMaster]
      cases plan.masterCsv with
      | none => rfl
      | some path =>
        have hread : (readTable path).run d = ((Table.ofFile d.disk path).mapError .table, d) := rfl
        dsimp only
        rw [run_bind, hread]
        cases Table.ofFile d.disk path with
        | error fault => rfl
        | ok table => rfl

theorem mergeItems_run (policy : Policy) (o : Order) (items : List Item) (d : Desk) :
    (mergeItems policy o items).run d = (items.mapM (mergedItem policy d o), d) := by
  induction items with
  | nil => rfl
  | cons i rest ih =>
    rw [mergeItems, run_bind, mergeItem_run, List.mapM_cons]
    cases mergedItem policy d o i with
    | error fault => rfl
    | ok merged =>
      dsimp only
      rw [run_bind, ih]
      cases rest.mapM (mergedItem policy d o) with
      | error fault => rfl
      | ok more => rfl

/-- Making a list out of another fails only where making one of its entries
does. -/
theorem mapM_error {α β ε : Type} {f : α → Except ε β} {l : List α} {e : ε}
    (h : l.mapM f = .error e) : ∃ a ∈ l, f a = .error e := by
  induction l with
  | nil => cases h
  | cons a rest ih =>
    rw [List.mapM_cons] at h
    obtain hfirst | ⟨b, -, h⟩ := Except.bind_eq_error.mp h
    · exact ⟨a, by simp, hfirst⟩
    · obtain hrest | ⟨bs, -, h⟩ := Except.bind_eq_error.mp h
      · obtain ⟨c, hc, hfault⟩ := ih hrest
        exact ⟨c, by simp [hc], hfault⟩
      · cases h

/-! Why a merge fails. -/

/-- What may keep an order with mergeable items from being merged. -/
inductive MayFail (d : Desk) (o : Order) : ServiceFault → Prop
  | noPlan {i : Item} (hi : i ∈ d.store.itemsOf o.id) (hcompleted : i.status = .completed)
      (hplan : d.store.plan? i.company i.documentType i.itemType = none)
      (hkeys : o.mappingKeys = none) :
      MayFail d o (.order (.mappingNotFound i.id i.company i.documentType))
  | noJoinKeys {i : Item} {plan : JoinPlan} (hi : i ∈ d.store.itemsOf o.id)
      (hcompleted : i.status = .completed) (hplan : planFor d.store o i = .ok plan)
      (hkeys : usableKeys plan = []) : MayFail d o (.merge .noJoinKeys)
  | noInternalKey {i : Item} {plan : JoinPlan} (hi : i ∈ d.store.itemsOf o.id)
      (hcompleted : i.status = .completed) (hplan : planFor d.store o i = .ok plan)
      (hmulti : plan.itemType = .multiSource) (hkey : presentText? plan.internalKey = none) :
      MayFail d o (.merge .noInternalKey)
  | masterCsv {i : Item} {plan : JoinPlan} {path : String} {cause : Table.FileFault}
      (hi : i ∈ d.store.itemsOf o.id) (hcompleted : i.status = .completed)
      (hplan : planFor d.store o i = .ok plan) (hpath : plan.masterCsv = some path)
      (hread : Table.ofFile d.disk path = .error cause) : MayFail d o (.table cause)

theorem planFor_error {s : Store} {i : Item} {fault : ServiceFault}
    (h : planFor s o i = .error fault) :
    s.plan? i.company i.documentType i.itemType = none ∧ o.mappingKeys = none ∧
      fault = .order (.mappingNotFound i.id i.company i.documentType) := by
  unfold planFor at h
  split at h
  · cases h
  · cases h
  · cases h
  · rename_i hplan hkeys
    cases h
    exact ⟨hplan, hkeys, rfl⟩

theorem withMaster_error {disk : Disk} {plan : JoinPlan} {tables : ItemTables}
    {fault : ServiceFault} (h : withMaster disk plan tables = .error fault) :
    ∃ path cause, plan.masterCsv = some path ∧ Table.ofFile disk path = .error cause ∧
      fault = .table cause := by
  unfold withMaster at h
  split at h
  · rename_i path hpath
    cases hread : Table.ofFile disk path with
    | ok table =>
      rw [hread] at h
      cases h
    | error cause =>
      rw [hread] at h
      cases h
      exact ⟨path, cause, hpath, hread, rfl⟩
  · cases h

theorem merge_error {plan : JoinPlan} {rule : MatchRule} {primary : Table}
    {attachments : List Table} {error : MergeError}
    (h : merge plan rule primary attachments = .error error) :
    (error = .noJoinKeys ∧ usableKeys plan = []) ∨ (error = .noInternalKey ∧
      plan.itemType = .multiSource ∧ presentText? plan.internalKey = none) := by
  unfold merge at h
  split at h
  · rename_i hkeys
    cases h
    exact Or.inl ⟨rfl, hkeys⟩
  · cases hcombined : combine plan rule attachments with
    | ok combined =>
      rw [hcombined] at h
      cases h
    | error cause =>
      rw [hcombined] at h
      cases h
      unfold combine at hcombined
      dsimp only at hcombined
      split at hcombined
      · cases hcombined
      · rename_i hmulti
        split at hcombined
        · cases hcombined
        · rename_i hkey
          cases hcombined
          exact Or.inr ⟨rfl, hmulti, hkey⟩

/-- An item with its tables at hand is merged, or one of the four causes is
there. -/
theorem mergedItem_error {i : Item} {tables : ItemTables} {fault : ServiceFault}
    (hi : i ∈ d.store.itemsOf o.id) (hcompleted : i.status = .completed)
    (htables : ItemTables.ofResults policy.flatten i (d.store.resultsOf i.id) = .ok tables)
    (h : mergedItem policy d o i = .error fault) : MayFail d o fault := by
  unfold mergedItem at h
  obtain hplan | ⟨plan, hplan, h⟩ := Except.bind_eq_error.mp h
  · obtain ⟨hnone, hkeys, rfl⟩ := planFor_error hplan
    exact .noPlan hi hcompleted hnone hkeys
  · rw [htables] at h
    obtain hnone | ⟨loaded, hloaded, h⟩ := Except.bind_eq_error.mp h
    · cases hnone
    · obtain rfl := Except.ok.inj hloaded
      obtain hmaster | ⟨attachments, -, h⟩ := Except.bind_eq_error.mp h
      · obtain ⟨path, cause, hpath, hread, rfl⟩ := withMaster_error hmaster
        exact .masterCsv hi hcompleted hplan hpath hread
      · obtain ⟨error, hmerge, rfl⟩ := Except.mapError_eq_error.mp h
        rcases merge_error hmerge with ⟨rfl, hkeys⟩ | ⟨rfl, hmulti, hkey⟩
        · exact .noJoinKeys hi hcompleted hplan hkeys
        · exact .noInternalKey hi hcompleted hplan hmulti hkey

/-! What a merge leaves. -/

def mergedParts (policy : Policy) (d : Desk) (o : Order) : Except ServiceFault (List Merged) :=
  ((d.store.itemsOf o.id).filter (·.status == .completed)).mapM (mergedItem policy d o)

theorem buildMerged_run (policy : Policy) (o : Order) (d : Desk) :
    (buildMerged policy o).run d = ((mergedParts policy d o).map Merged.concat, d) := by
  rw [buildMerged, run_bind_ok (run_look _ _), run_bind_pure, mergeItems_run, mergedParts]

theorem isRerun_run (o : Order) (d : Desk) : (isRerun o).run d =
    (.ok (o.status == .completed && d.store.merged.contains o.id), d) := by
  unfold isRerun
  split
  · rename_i hcompleted
    rw [hcompleted, Bool.true_and, run_look]
  · rename_i hnot
    rw [Bool.eq_false_iff.mpr hnot, Bool.false_and]
    rfl

/-- Keeping a merged table does not fail. -/
theorem keepMerged_store (policy : Policy) (merged : Merged) (ho : d.store.order? o.id = some o) :
    ∃ events, (keepMerged policy o merged).run d = (.ok (), { d with
      store := d.store.kept o.id o.status merged
      events := events }) := by
  let saved : Store := { d.store with merged := d.store.merged.insert o.id merged }
  have hsave : Store.saveMerged o.id merged d.store = .ok ((), saved) := by
    simp [Store.saveMerged, ho, saved]
  have hnote : Store.noteError o.id none saved = .ok ((), saved.noted o.id none) := rfl
  have hnoted : (saved.noted o.id none).order? o.id = some { o with error := none } := by
    rw [Store.noted, Store.order?_updateOrder, if_pos rfl]
    · exact congrArg (Option.map _) ho
    · exact fun _ => rfl
  by_cases hmapping : o.status = .mapping
  · let moved : Store := (saved.noted o.id none).updateOrder o.id fun p =>
      { p with status := .completed }
    have hmove : Store.moveOrder o.id .mapping .completed (saved.noted o.id none) =
        .ok (true, moved) := by
      simp [Store.moveOrder, OrderStatus.leadsTo, hnoted, hmapping, moved]
    have hmoved : moved.order? o.id = some { o with error := none, status := .completed } := by
      rw [Store.order?_updateOrder, if_pos rfl, hnoted]
      · rfl
      · exact fun _ => rfl
    have hkept : d.store.kept o.id o.status merged = moved := if_pos hmapping
    obtain ⟨events, hannounce⟩ := run_announceOrder policy .mergeCompleted "Merge completed"
      (d := { d with store := moved }) hmoved
    refine ⟨events, ?_⟩
    rw [keepMerged, run_bind_ok (run_store_ok hsave), run_bind_ok (run_store_ok hnote),
      if_pos hmapping, run_bind_ok (run_store_ok hmove), hannounce, hkept]
  · have hkept : d.store.kept o.id o.status merged = saved.noted o.id none := if_neg hmapping
    obtain ⟨events, hannounce⟩ := run_announceOrder policy .mergeCompleted "Merge completed"
      (d := { d with store := saved.noted o.id none }) hnoted
    refine ⟨events, ?_⟩
    rw [keepMerged, run_bind_ok (run_store_ok hsave), run_bind_ok (run_store_ok hnote),
      if_neg hmapping, hannounce, hkept]

/-- An order that does not admit a merge is left alone. -/
theorem runMerge_refused (policy : Policy) (ho : d.store.order? o.id = some o)
    (hnot : ¬ d.store.AdmitsMerge o) :
    (runMerge policy o.id).run d = (.error (.order (.orderRefuses o.id o.status .merge)), d) := by
  obtain ⟨hmapping, hmerged⟩ := not_or.mp hnot
  have hrerun : (o.status == .completed && d.store.merged.contains o.id) = false := by
    simpa using hmerged
  have hrefused : o.require [.mapping] .merge = .error (.orderRefuses o.id o.status .merge) :=
    if_neg (by simpa using hmapping)
  have hneed : (need ((o.require [.mapping] .merge).mapError ServiceFault.order)).run d =
      (.error (.order (.orderRefuses o.id o.status .merge)), d) := by
    rw [run_need, hrefused]
    rfl
  rw [runMerge, run_bind_ok (run_order_some ho), run_bind_ok (isRerun_run o d)]
  dsimp only
  rw [hrerun, if_pos Bool.not_false, run_bind, hneed]

/-- A merge of an order that admits it leaves a note or is kept. -/
theorem runMerge_store (policy : Policy) (ho : d.store.order? o.id = some o)
    (hadmits : d.store.AdmitsMerge o) : ∃ events, (runMerge policy o.id).run d =
      match mergedParts policy d o with
      | .error fault => (.error fault, { d with
          store := d.store.noted o.id (some fault.message)
          events := events })
      | .ok parts => (.ok (Merged.concat parts), { d with
          store := d.store.kept o.id o.status (Merged.concat parts)
          events := events }) := by
  unfold runMerge
  rw [run_bind_ok (run_order_some ho), run_bind_ok (isRerun_run o d)]
  extract_lets noted finish
  have hstart : (if !(o.status == .completed && d.store.merged.contains o.id) then
      need ((o.require [.mapping] .merge).mapError ServiceFault.order) >>= finish
      else finish ()).run d = (finish ()).run d := by
    rcases hadmits with hmapping | ⟨hcompleted, hmerged⟩
    · have hneed : (need ((o.require [.mapping] .merge).mapError ServiceFault.order)).run d =
          (.ok (), d) := by
        rw [run_need, Order.require_eq_ok.mpr (by simp [hmapping])]
        rfl
      have hrerun : (o.status == .completed && d.store.merged.contains o.id) = false := by
        rw [hmapping]
        rfl
      rw [hrerun, if_pos Bool.not_false]
      exact run_bind_ok hneed
    · have hrerun : (o.status == .completed && d.store.merged.contains o.id) = true := by
        rw [hcompleted, hmerged]
        rfl
      rw [hrerun, if_neg (by simp)]
  have hbuild : (buildMerged policy o).attempt.run d =
      (.ok ((mergedParts policy d o).map Merged.concat), d) := by
    rw [run_attempt, buildMerged_run]
  rw [hstart]
  simp only [finish]
  rw [run_bind_ok hbuild]
  cases mergedParts policy d o with
  | error fault =>
    have hnote : Store.noteError o.id (some fault.message) d.store =
        .ok ((), d.store.noted o.id (some fault.message)) := rfl
    obtain ⟨events, hannounce⟩ := run_announce policy
      { ProgressEvent.ofOrder o .mergeFailed "Merge failed" with error := some fault.message }
      { d with store := d.store.noted o.id (some fault.message) }
    refine ⟨events, ?_⟩
    change ((Procedure.store _ >>= fun _ => announce policy _ >>= fun _ => need _).run d) = _
    rw [run_bind_ok (run_store_ok hnote), run_bind_ok hannounce, run_need]
  | ok parts =>
    obtain ⟨events, hkeep⟩ := keepMerged_store policy (Merged.concat parts) ho
    exact ⟨events, run_bind_ok hkeep⟩

/-- A merge leaves the store alone, or an order admits it and it leaves a note or is kept. -/
theorem runMerge_cases (policy : Policy) (order : String) :
    ((runMerge policy order).run d).2.store = d.store ∨
      ∃ o, d.store.order? o.id = some o ∧ d.store.AdmitsMerge o ∧
        ((∃ error, ((runMerge policy order).run d).2.store = d.store.noted o.id error) ∨
          ∃ table, ((runMerge policy order).run d).2.store =
            d.store.kept o.id o.status table) := by
  cases ho : d.store.order? order with
  | none =>
    have hmissing : (Procedure.order order).run d =
        (.error (.order (.orderNotFound order)), d) := by
      rw [run_order, Store.order, ho]
      rfl
    left
    rw [runMerge, run_bind, hmissing]
  | some o =>
    obtain ⟨-, rfl⟩ := Store.order?_mem ho
    by_cases hadmits : d.store.AdmitsMerge o
    · obtain ⟨events, hrun⟩ := runMerge_store policy ho hadmits
      refine Or.inr ⟨o, ho, hadmits, ?_⟩
      rw [hrun]
      cases mergedParts policy d o with
      | error fault => exact Or.inl ⟨_, rfl⟩
      | ok parts => exact Or.inr ⟨_, rfl⟩
    · left
      rw [runMerge_refused policy ho hadmits]

/-- What a merge of an order that awaits it gives. -/
theorem runMerge_value (ho : d.store.order? o.id = some o) (hmapping : o.status = .mapping) :
    ((runMerge policy o.id).run d).1 =
      (((d.store.itemsOf o.id).filter (·.status == .completed)).mapM
        (mergedItem policy d o)).map Merged.concat := by
  obtain ⟨events, hrun⟩ := runMerge_store policy ho (Or.inl hmapping)
  rw [hrun, ← mergedParts]
  cases mergedParts policy d o with
  | error fault => rfl
  | ok parts => rfl

/-- A merge of an order that awaits it fails as one of its completed items does. -/
theorem runMerge_error (ho : d.store.order? o.id = some o) (hmapping : o.status = .mapping)
    {fault : ServiceFault} (h : ((runMerge policy o.id).run d).1 = .error fault) :
    ∃ i ∈ d.store.itemsOf o.id, i.status = .completed ∧
      mergedItem policy d o i = .error fault := by
  rw [runMerge_value ho hmapping] at h
  cases hparts : ((d.store.itemsOf o.id).filter (·.status == .completed)).mapM
      (mergedItem policy d o) with
  | error cause =>
    rw [hparts] at h
    cases h
    obtain ⟨i, hi, hitem⟩ := mapM_error hparts
    obtain ⟨hi, hcompleted⟩ := List.mem_filter.mp hi
    exact ⟨i, hi, by simpa using hcompleted, hitem⟩
  | ok parts =>
    rw [hparts] at h
    cases h

end Service

end Collate
