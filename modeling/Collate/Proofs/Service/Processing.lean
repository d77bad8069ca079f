import Collate.Proofs.Service.Examine
import Collate.Proofs.Service.Settling

/-!
Processing an item, all steps at once. An item that is not pending is passed
over. For a pending one the results of its examination are recorded, the item is
resolved as the verdict says and counted at its order, and the order is rolled
up if that was its last open item. Nothing else changes: not the disk, and no
other item with its files and results.
-/

namespace Collate

/-- An item that was begun and resolved, as a verdict says. -/
def Item.judged (i : Item) (now : Time.Timestamp) : Except String Unit → Item
  | .ok () => { i with status := .completed, startedAt := some now, endedAt := some now }
  | .error reason =>
    { i with status := .failed, startedAt := some now, endedAt := some now, error := some reason }

theorem Item.judged_keeps (i : Item) (now : Time.Timestamp) (verdict : Except String Unit) :
    (i.judged now verdict).id = i.id ∧ (i.judged now verdict).orderId = i.orderId ∧
      (i.judged now verdict).retryOf = i.retryOf ∧ (i.judged now verdict).files = i.files := by
  cases verdict <;> exact ⟨rfl, rfl, rfl, rfl⟩

theorem Item.judged_final (i : Item) (now : Time.Timestamp) (verdict : Except String Unit) :
    (i.judged now verdict).status.isFinal = true := by
  cases verdict <;> rfl

/-- An item that was begun is resolved as it is judged. -/
theorem Item.started_judged (i : Item) (now : Time.Timestamp) (verdict : Except String Unit) :
    (match verdict with
      | .ok () => Item.complete { i with status := .processing, startedAt := some now } now
      | .error reason =>
        Item.fail { i with status := .processing, startedAt := some now } reason now) =
      .ok (i.judged now verdict) := by
  cases verdict with
  | ok u => rfl
  | error reason => rfl

theorem Item.judged_completed {i : Item} {now : Time.Timestamp} {verdict : Except String Unit}
    (h : (i.judged now verdict).status = .completed) : verdict = .ok () := by
  cases verdict with
  | ok u => rfl
  | error reason => cases h

namespace Store

variable {s : Store} {i : Item}

def settleItem (s : Store) (resolved : Item) (results : List ExtractionResult) : Store :=
  ({ s.updateItem resolved.id (fun _ => resolved) with
    results := s.results ++ results }).updateOrder resolved.orderId
      (countResolution resolved.status)

/-- A roll-up only touches the status of the order. -/
theorem rolledUp_keeps (s : Store) (id : String) : (s.rolledUp id).items = s.items ∧
    (s.rolledUp id).results = s.results ∧ (s.Balanced → (s.rolledUp id).Balanced) ∧
    s.Change (s.rolledUp id) := by
  rcases s.rolledUp_cases id with heq | ⟨o, target, -, -, htarget, heq⟩
  · rw [heq]
    exact ⟨rfl, rfl, fun h => h, .same rfl rfl⟩
  · rw [heq]
    refine ⟨rfl, rfl, fun h => h.updateOrder ?_ ?_, ?_⟩
    · exact fun _ => rfl
    · exact fun _ => ⟨rfl, rfl, rfl⟩
    · exact change_status (ne_draft_of_leadsTo (RollupFacts.leadsTo_target htarget))

theorem begin_pending {id : String} (now : Time.Timestamp) (hfound : s.item? id = some i)
    (hpending : i.status = .pending) : begin id now s =
      .ok (some { i with status := .processing, startedAt := some now }, s.updateItem id fun i =>
        { i with status := .processing, startedAt := some now }) := by
  have hstart : i.start now = .ok { i with status := .processing, startedAt := some now } :=
    if_pos hpending
  simp only [begin, Except.bind_eq_ok, liftFault_eq_ok, item_eq_ok]
  refine ⟨i, hfound, ?_⟩
  rw [if_pos hpending, Except.bind_eq_ok]
  exact ⟨_, liftFault_eq_ok.mpr hstart, rfl⟩

theorem begin_other {id : String} {now : Time.Timestamp} (hfound : s.item? id = some i)
    (hnot : i.status ≠ .pending) : begin id now s = .ok (none, s) := by
  simp only [begin, Except.bind_eq_ok, liftFault_eq_ok, item_eq_ok]
  exact ⟨i, hfound, if_neg hnot⟩

def begun (s : Store) (id : String) (now : Time.Timestamp) : Store :=
  s.updateItem id fun i => { i with status := .processing, startedAt := some now }

theorem begun_item? (now : Time.Timestamp) (hfound : s.item? i.id = some i) :
    (s.begun i.id now).item? i.id =
      some { i with status := .processing, startedAt := some now } := by
  rw [begun, item?_updateItem, if_pos rfl, hfound]
  · rfl
  · exact fun _ _ hid => hid

/-- A pending item has no results yet, so that it can be examined. -/
theorem Tidy.examinable (h : s.Tidy) (hfound : s.item? i.id = some i)
    (hpending : i.status = .pending) (now : Time.Timestamp) :
    Service.Examinable (s.begun i.id now)
      { i with status := .processing, startedAt := some now } := by
  obtain ⟨hi, -⟩ := item?_mem hfound
  refine ⟨begun_item? now hfound, h.owned i hi, h.distinct i hi, ?_⟩
  intro r hr
  obtain ⟨j, hj, hjid, hfinal, f, hf, hfid⟩ := h.filed r hr
  have hne : j.id ≠ i.id := by
    intro hid
    rw [h.item_unique hj hi hid, hpending] at hfinal
    cases hfinal
  refine ⟨fun hid => hne (hjid.trans hid), ?_⟩
  intro g hg hgid
  exact hne (h.apart j hj i hi f hf g hg (hfid.trans hgid))

theorem Tidy.recordedFor_pending (h : s.Tidy) (hfound : s.item? i.id = some i)
    (hpending : i.status = .pending) : s.recordedFor i.id = [] := by
  rw [List.eq_nil_iff_forall_not_mem]
  intro r hr
  obtain ⟨hr, hrid⟩ := mem_recordedFor.mp hr
  exact ((h.examinable hfound hpending ⟨0, 0⟩).new r hr).1 hrid

/-- Once a pending item was begun and its results were recorded it can be
resolved. -/
theorem Tidy.resolve_judged (h : s.Tidy) (hfound : s.item? i.id = some i)
    (hpending : i.status = .pending) {o : Order} (ho : s.order? i.orderId = some o)
    (now : Time.Timestamp) (verdict : Except String Unit) (results : List ExtractionResult) :
    resolve (i.judged now verdict) { s.begun i.id now with results := s.results ++ results } =
        .ok (countResolution (i.judged now verdict).status o,
          s.settleItem (i.judged now verdict) results) ∧
      (s.settleItem (i.judged now verdict) results).Balanced := by
  obtain ⟨hi, -⟩ := item?_mem hfound
  obtain ⟨hid, horder, -, -⟩ := i.judged_keeps now verdict
  let before : Store := { s.begun i.id now with results := s.results ++ results }
  have hthere : before.item? i.id = some { i with status := .processing, startedAt := some now } :=
    begun_item? now hfound
  -- beginning the item and settling it gives the item as it was judged
  have hitems : (before.updateItem i.id (settle (i.judged now verdict))).items =
      (s.updateItem i.id fun _ => i.judged now verdict).items := by
    simp only [before, begun, updateItem, List.map_map]
    apply List.map_congr_left
    intro j hj
    by_cases hhere : j.id = i.id
    · obtain rfl := h.item_unique hj hi hhere
      cases verdict <;> simp [settle, Item.judged]
    · simp [hhere]
  have hsettled : (before.updateItem i.id (settle (i.judged now verdict))).updateOrder i.orderId
      (countResolution (i.judged now verdict).status) =
        s.settleItem (i.judged now verdict) results := by
    rw [settleItem, hid, horder]
    simp only [updateOrder, hitems]
    rfl
  have hcounted : (s.settleItem (i.judged now verdict) results).order? i.orderId =
      some (countResolution (i.judged now verdict).status o) := by
    rw [settleItem, horder, order?_updateOrder, if_pos rfl]
    · change (s.order? i.orderId).map _ = _
      rw [ho]
      rfl
    · exact fun o => (countResolution_counters _ o).1
  have hresolve : resolve (i.judged now verdict) before =
      .ok (countResolution (i.judged now verdict).status o,
        s.settleItem (i.judged now verdict) results) := by
    simp only [resolve, Item.judged_final, if_true, hid, hthere, horder, Except.bind_eq_ok,
      liftFault_eq_ok, order_eq_ok, Except.ok.injEq, Prod.mk.injEq]
    refine ⟨_, ?_, rfl, hsettled⟩
    exact (congrArg (fun t => t.order? i.orderId) hsettled).trans hcounted
  have hbefore : before.Balanced :=
    (h.toBalanced.begin (begin_pending now hfound hpending)).of_eq rfl rfl
  refine ⟨hresolve, hbefore.resolve hresolve ?_⟩
  intro j hj hjid
  rw [hid] at hjid
  obtain ⟨hstarted, -⟩ := item?_mem hthere
  rw [hbefore.item_unique hj hstarted hjid, horder]

/-! The store after an item was processed. -/

/-- The store once a pending item was examined and resolved, and its order was
rolled up if that was due. -/
def processed (s : Store) (i : Item) (now : Time.Timestamp) (ex : Service.Examination) : Store :=
  (s.settleItem (i.judged now ex.verdict) ex.results).rolledUp i.orderId

theorem processed_items (s : Store) (i : Item) (now : Time.Timestamp) (ex : Service.Examination) :
    (s.processed i now ex).items = (s.updateItem i.id fun _ => i.judged now ex.verdict).items := by
  rw [processed, (rolledUp_keeps _ _).1, settleItem, (i.judged_keeps now ex.verdict).1]
  rfl

theorem processed_results (s : Store) (i : Item) (now : Time.Timestamp)
    (ex : Service.Examination) : (s.processed i now ex).results = s.results ++ ex.results := by
  rw [processed, (rolledUp_keeps _ _).2.1]
  rfl

/-- Every item is as before, but for the one that was processed. -/
theorem mem_processed {now : Time.Timestamp} {ex : Service.Examination} {j : Item}
    (hj : j ∈ (s.processed i now ex).items) :
    (j = i.judged now ex.verdict) ∨ (j ∈ s.items ∧ j.id ≠ i.id) := by
  rw [processed_items] at hj
  obtain ⟨k, hk, ⟨-, rfl⟩ | ⟨hne, rfl⟩⟩ := updateItem_cases hj
  · exact Or.inl rfl
  · exact Or.inr ⟨hk, hne⟩

theorem Tidy.processed_idle (h : s.Tidy) (i : Item) (now : Time.Timestamp)
    (ex : Service.Examination) : ∀ j ∈ (s.processed i now ex).items, j.status ≠ .processing := by
  intro j hj hstatus
  rcases mem_processed hj with rfl | ⟨hold, -⟩
  · have hfinal := i.judged_final now ex.verdict
    rw [hstatus] at hfinal
    cases hfinal
  · exact h.idle j hold hstatus

theorem processed_item? (now : Time.Timestamp) (ex : Service.Examination) {other : String}
    (hne : other ≠ i.id) : (s.processed i now ex).item? other = s.item? other := by
  have hsame : (s.updateItem i.id fun _ => i.judged now ex.verdict).item? other =
      if other = i.id then (s.item? i.id).map fun _ => i.judged now ex.verdict
      else s.item? other :=
    item?_updateItem (fun _ _ _ => (i.judged_keeps now ex.verdict).1) other
  rw [if_neg hne] at hsame
  rw [item?, processed_items]
  exact hsame

section

variable (h : s.Tidy) (hfound : s.item? i.id = some i) (hpending : i.status = .pending)
  {o : Order} (ho : s.order? i.orderId = some o) (now : Time.Timestamp)

include h hfound hpending ho

theorem Tidy.processed_frozen (ex : Service.Examination) : s.Frozen (s.processed i now ex) := by
  obtain ⟨hresolve, hbalanced⟩ :=
    h.resolve_judged hfound hpending ho now ex.verdict ex.results
  have hbegin := begin_pending now hfound hpending
  have hbegun := change_begin hbegin
  have hkeyed := h.keyed.change hbegun
  let recorded : Store := { s.begun i.id now with results := s.results ++ ex.results }
  have hsame : (s.begun i.id now).Change recorded := .same rfl rfl
  have hrecorded := hkeyed.change hsame
  have hplace : ∀ j ∈ recorded.items, j.id = (i.judged now ex.verdict).id →
      j.orderId = (i.judged now ex.verdict).orderId := by
    obtain ⟨hid, horder, -, -⟩ := i.judged_keeps now ex.verdict
    intro j hj hjid
    obtain ⟨hstarted, -⟩ := item?_mem (begun_item? now hfound)
    rw [hrecorded.item_unique hj hstarted (hjid.trans hid), horder]
  have hsettled := hrecorded.frozen (change_resolve hresolve hplace)
  have hrolled := hbalanced.toCoherent.keyed.frozen (rolledUp_keeps _ i.orderId).2.2.2
  exact (((h.keyed.frozen hbegun).trans (hkeyed.frozen hsame)).trans hsettled).trans hrolled

/-- A store stays tidy when an item is processed and the results are for its own
files. -/
theorem Tidy.processed {ex : Service.Examination}
    (hresults : ∀ r ∈ ex.results, r.itemId = i.id ∧ ∃ f ∈ i.files, f.id = r.fileId)
    (honce : (ex.results.map (·.fileId)).Nodup) : (s.processed i now ex).Tidy := by
  obtain ⟨hi, -⟩ := item?_mem hfound
  obtain ⟨hid, -, -, hfiles⟩ := i.judged_keeps now ex.verdict
  obtain ⟨-, hbalanced⟩ := h.resolve_judged hfound hpending ho now ex.verdict ex.results
  have hfrozen := h.processed_frozen hfound hpending ho now ex
  refine ⟨(rolledUp_keeps _ _).2.2.1 hbalanced, ?_, ⟨?_, ?_⟩, ?_⟩
  · refine (Filed.updateItem h.toFiled ?_).of_items (processed_items s i now ex)
    intro j hj hjid
    rw [h.item_unique hj hi hjid]
    exact ⟨hid, hfiles⟩
  · rw [processed_results, List.map_append, List.nodup_append]
    refine ⟨h.once, honce, ?_⟩
    intro a ha b hb heq
    obtain ⟨r, hr, rfl⟩ := List.mem_map.mp ha
    obtain ⟨r', hr', rfl⟩ := List.mem_map.mp hb
    obtain ⟨-, f, hf, hfid⟩ := hresults r' hr'
    exact ((h.examinable hfound hpending now).new r hr).2 f hf (heq.trans hfid.symm)
  · intro r hr
    rw [processed_results, List.mem_append] at hr
    rcases hr with hold | hnew
    · obtain ⟨j, hj, hjid, hfinal, hfile⟩ := h.filed r hold
      exact ⟨j, hfrozen.items j hj hfinal, hjid, hfinal, hfile⟩
    · obtain ⟨hitem, hfile⟩ := hresults r hnew
      refine ⟨i.judged now ex.verdict, ?_, hid.trans hitem.symm, i.judged_final now _, ?_⟩
      · rw [processed_items]
        exact mem_updateItem.mpr ⟨i, hi, if_pos (beq_self_eq_true i.id)⟩
      · rw [hfiles]
        exact hfile
  · exact h.processed_idle i now ex

end

/-! The order of an item that was processed. -/

theorem countResolution_eq (status : ItemStatus) (o : Order) :
    countResolution status o = { o with
      completed := (countResolution status o).completed
      failed := (countResolution status o).failed } := by
  cases status <;> rfl

theorem processed_order?_of_ne (s : Store) (i : Item) (now : Time.Timestamp)
    (ex : Service.Examination) {other : String} (hne : other ≠ i.orderId) :
    (s.processed i now ex).order? other = s.order? other := by
  have hplace := (i.judged_keeps now ex.verdict).2.1
  have hsettled : (s.settleItem (i.judged now ex.verdict) ex.results).order? other =
      s.order? other := by
    rw [settleItem, hplace, order?_updateOrder, if_neg hne]
    · rfl
    · exact fun o => (countResolution_counters _ o).1
  rw [processed]
  rcases rolledUp_cases (s.settleItem (i.judged now ex.verdict) ex.results) i.orderId with
    heq | ⟨o, target, -, -, -, heq⟩
  · rw [heq, hsettled]
  · rw [heq, order?_updateOrder, if_neg hne, hsettled]
    exact fun _ => rfl

theorem processed_plans (s : Store) (i : Item) (now : Time.Timestamp) (ex : Service.Examination) :
    (s.processed i now ex).templates = s.templates ∧
      (s.processed i now ex).bindings = s.bindings := by
  rw [processed]
  rcases rolledUp_cases (s.settleItem (i.judged now ex.verdict) ex.results) i.orderId with
    heq | ⟨o, target, -, -, -, heq⟩
  · rw [heq]
    exact ⟨rfl, rfl⟩
  · rw [heq]
    exact ⟨rfl, rfl⟩

/-- An order in processing stays there while it has pending items, and then goes
where its facts say. -/
theorem rolledUp_order (h : s.Balanced) (hidle : ∀ j ∈ s.items, j.status ≠ .processing)
    {id : String} {o : Order} (ho : s.order? id = some o) (hprocessing : o.status = .processing)
    (hpos : 0 < o.total) : ∃ after, (s.rolledUp id).order? id = some after ∧
      after = { o with status := after.status } ∧
      ((s.rolledUp id).Has id .pending → after.status = .processing) ∧
      (¬ (s.rolledUp id).Has id .pending →
        ((s.rolledUp id).rollupFacts after ((s.rolledUp id).itemsOf id)).target? =
          some after.status) := by
  obtain ⟨hmem, rfl⟩ := order?_mem ho
  have hresolved : o.allResolved = true ↔ ¬ s.Has o.id .pending := by
    rw [← h.resolved_iff_not_has hidle hmem]
    simp [Order.allResolved, Order.resolved, hpos]
  by_cases hhas : s.Has o.id .pending
  · rw [rolledUp_idle ho fun hboth => hresolved.mp hboth.2 hhas]
    exact ⟨o, ho, rfl, fun _ => hprocessing, fun hnone => absurd hhas hnone⟩
  · obtain ⟨target, htarget, hmoves⟩ := rolledUp_resolved ho hprocessing (hresolved.mpr hhas)
    rw [hmoves]
    refine ⟨{ o with status := target }, ?_, rfl, fun hsome => absurd hsome hhas, fun _ => htarget⟩
    rw [order?_updateOrder, if_pos rfl, ho]
    · rfl
    · exact fun _ => rfl

theorem Tidy.processed_order (h : s.Tidy) (hfound : s.item? i.id = some i)
    (hpending : i.status = .pending) {o : Order} (ho : s.order? i.orderId = some o)
    (hprocessing : o.status = .processing) (hpos : 0 < o.total) (now : Time.Timestamp)
    (ex : Service.Examination) : ∃ after, (s.processed i now ex).order? i.orderId = some after ∧
      after = { o with
        status := after.status
        completed := after.completed
        failed := after.failed } ∧
      ((s.processed i now ex).Has i.orderId .pending → after.status = .processing) ∧
      (¬ (s.processed i now ex).Has i.orderId .pending →
        ((s.processed i now ex).rollupFacts after
          ((s.processed i now ex).itemsOf i.orderId)).target? = some after.status) := by
  obtain ⟨hresolve, hbalanced⟩ := h.resolve_judged hfound hpending ho now ex.verdict ex.results
  obtain ⟨-, -, -, hcounted⟩ := resolve_ok hresolve
  rw [(i.judged_keeps now ex.verdict).2.1] at hcounted
  have hcount := countResolution_eq (i.judged now ex.verdict).status o
  have hidle := h.processed_idle i now ex
  rw [Store.processed, (rolledUp_keeps _ _).1] at hidle
  obtain ⟨after, hafter, heq, hgoes⟩ := rolledUp_order hbalanced hidle hcounted
    (by rw [hcount]; exact hprocessing) (by rw [hcount]; exact hpos)
  refine ⟨after, hafter, ?_, hgoes⟩
  rw [heq, hcount]

/-- The results of the other items are as before, and in the same order. -/
theorem resultsOf_congr {s t : Store} {item : String}
    (hfiles : t.items.map (·.files) = s.items.map (·.files))
    (hresults : t.recordedFor item = s.recordedFor item) :
    t.resultsOf item = s.resultsOf item := by
  have hplace : ∀ file, t.filePlace file = s.filePlace file := by
    intro file
    have hfind : ∀ items : List Item, (items.findSome? fun i => i.files.findIdx? (·.id == file)) =
        (items.map (·.files)).findSome? fun files => files.findIdx? (·.id == file) := by
      intro items
      rw [List.findSome?_map]
      rfl
    rw [filePlace, filePlace, hfind, hfind, hfiles]
  rw [recordedFor, recordedFor] at hresults
  simp only [resultsOf, hplace, hresults]

theorem processed_files (h : s.Tidy) (hi : i ∈ s.items) (now : Time.Timestamp)
    (ex : Service.Examination) :
    (s.processed i now ex).items.map (·.files) = s.items.map (·.files) := by
  rw [processed_items, updateItem, List.map_map]
  apply List.map_congr_left
  intro j hj
  by_cases hid : j.id = i.id
  · simp [h.item_unique hj hi hid, (i.judged_keeps now ex.verdict).2.2.2]
  · simp [hid]

theorem processed_recordedFor (now : Time.Timestamp) {ex : Service.Examination}
    (hresults : ∀ r ∈ ex.results, r.itemId = i.id) (other : String) :
    (s.processed i now ex).recordedFor other =
      s.recordedFor other ++ if other = i.id then ex.results else [] := by
  rw [recordedFor, processed_results, List.filter_append, ← recordedFor]
  congr 1
  split
  · rename_i hhere
    rw [List.filter_eq_self]
    intro r hr
    simp [hresults r hr, hhere]
  · rename_i hne
    rw [List.filter_eq_nil_iff]
    intro r hr
    simpa [hresults r hr] using Ne.symm hne

end Store

namespace Service

open Procedure

variable {policy : Policy} {d : Desk} {i : Item} {o : Order} {id : String}

theorem processItem_missing (h : d.store.item? id = none) :
    ((processItem policy id).run d).2 = d := by
  have hrefused : Store.begin id d.clock d.store = .error (.order (.itemNotFound id)) := by
    simp only [Store.begin, Store.item, h]
    rfl
  have hbegin : (Procedure.store (Store.begin id d.clock)).run d =
      (.error (.order (.itemNotFound id)), d) := run_store_error hrefused
  rw [processItem, run_bind_ok (run_now d), run_bind, hbegin]

theorem processItem_passed (h : d.store.item? id = some i) (hnot : i.status ≠ .pending) :
    (processItem policy id).run d = (.ok none, d) := by
  rw [processItem, run_bind_ok (run_now d),
    run_bind_ok (run_store_ok (Store.begin_other h hnot))]
  rfl

/-- The desk once an item was begun and examined, but not resolved. -/
def examinedDesk (policy : Policy) (d : Desk) (i : Item) (o : Order)
    (events : List ProgressEvent) : Desk :=
  let ex := examination policy d.disk i o.mappingKeys d.calls
  { d with
    store := { d.store.begun i.id d.clock with results := d.store.results ++ ex.results }
    events := events
    calls := ex.calls }

/-- What a pending item comes to until it is resolved: it is begun, its order is there, and it is
examined, whatever was announced before. -/
theorem begin_examine_run (policy : Policy) (h : d.store.Tidy)
    (hfound : d.store.item? i.id = some i) (hpending : i.status = .pending)
    (ho : d.store.order? i.orderId = some o) (events : List ProgressEvent) :
    let ex := examination policy d.disk i o.mappingKeys d.calls
    let started : Item := { i with status := .processing, startedAt := some d.clock }
    let begun : Desk := { d with store := d.store.begun i.id d.clock }
    (Procedure.store (Store.begin i.id d.clock)).run d = (.ok (some started), begun) ∧
      (Procedure.order started.orderId).run begun = (.ok o, begun) ∧
      (examine policy started o.mappingKeys).run { begun with events := events } =
        (.ok ex.verdict, examinedDesk policy d i o events) := by
  intro ex started begun
  refine ⟨run_store_ok (Store.begin_pending d.clock hfound hpending),
    run_order_some (d := begun) ho, ?_⟩
  have hrun := examine_run policy (d := { begun with events := events })
    (h.examinable hfound hpending d.clock) o.mappingKeys
  rw [examination_started] at hrun
  exact hrun

/-- What processing a pending item does. -/
theorem processItem_pending (policy : Policy) (h : d.store.Tidy)
    (hfound : d.store.item? i.id = some i) (hpending : i.status = .pending)
    (ho : d.store.order? i.orderId = some o) :
    ∃ events, (processItem policy i.id).run d =
      (.ok (some (i.judged d.clock
          (examination policy d.disk i o.mappingKeys d.calls).verdict)),
        { d with
          store := d.store.processed i d.clock
            (examination policy d.disk i o.mappingKeys d.calls)
          events := events
          calls := (examination policy d.disk i o.mappingKeys d.calls).calls }) := by
  let ex := examination policy d.disk i o.mappingKeys d.calls
  let begun : Desk := { d with store := d.store.begun i.id d.clock }
  obtain ⟨events, hannounce⟩ := run_announce policy
    (ProgressEvent.ofItem o i.id .itemStarted "Extracting item") begun
  obtain ⟨hbegin, horder, hexamine⟩ := begin_examine_run policy h hfound hpending ho events
  obtain ⟨hresolve, -⟩ := h.resolve_judged hfound hpending ho d.clock ex.verdict ex.results
  obtain ⟨-, -, -, hafter⟩ := Store.resolve_ok hresolve
  have hplace := (Store.order?_mem hafter).2
  rw [← hplace] at hafter
  obtain ⟨events', hresolution⟩ := resolution_store policy i.id
    (d := examinedDesk policy d i o events) (i.started_judged d.clock ex.verdict) hresolve hafter
  refine ⟨events', ?_⟩
  rw [hplace, (i.judged_keeps d.clock ex.verdict).2.1] at hresolution
  rw [processItem, run_bind_ok (run_now d), run_bind_ok hbegin]
  dsimp only
  rw [run_bind_ok horder, run_bind_ok hannounce, run_bind_ok hexamine, run_bind_ok (run_now _)]
  exact hresolution

end Service

end Collate
