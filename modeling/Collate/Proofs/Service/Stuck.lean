import Collate.Proofs.Service.Merging
import Collate.Proofs.Service.Processing

/-!
Orders that are left in processing with nothing left to process. An order that
leaves processing is not stuck, one that gets an item to process is not, and a
roll-up gets every stuck order out that was sent off with items. Whatever else is
done to a store leaves stuck orders stuck, and gets no order stuck: an item that is
processed belongs to an order that has another one to process, goes where its
items take it, or is not in processing.
-/

namespace Collate

namespace Store

variable {s s' : Store} {id : String}

def statusOf (s : Store) (id : String) : Option OrderStatus := (s.order? id).map (·.status)

/-- Whether an order is in processing with all its items final. -/
def Stuck (s : Store) (id : String) : Prop :=
  s.statusOf id = some .processing ∧ ∀ i ∈ s.items, i.orderId = id → i.status.isFinal = true

instance (s : Store) (id : String) : Decidable (s.Stuck id) := inferInstanceAs (Decidable (_ ∧ _))

theorem statusOf_some {o : Order} (ho : s.order? id = some o) : s.statusOf id = some o.status := by
  rw [statusOf, ho]
  rfl

theorem statusOf_updateOrder {id : String} {change : Order → Order}
    (hid : ∀ o, (change o).id = o.id) (other : String) : (s.updateOrder id change).statusOf other =
      if other = id then (s.order? id).map fun o => (change o).status else s.statusOf other := by
  rw [statusOf, order?_updateOrder hid]
  split
  · rw [Option.map_map]
    rfl
  · rfl

theorem statusOf_moved (s : Store) (id : String) (target : OrderStatus) (other : String) :
    (s.updateOrder id fun o => { o with status := target }).statusOf other =
      if other = id then (s.order? id).map fun _ => target else s.statusOf other := by
  rw [statusOf_updateOrder]
  exact fun _ => rfl

/-- A change to an order that leaves its status alone. -/
theorem statusOf_same {id : String} {change : Order → Order} (hid : ∀ o, (change o).id = o.id)
    (hstatus : ∀ o, (change o).status = o.status) (other : String) :
    (s.updateOrder id change).statusOf other = s.statusOf other := by
  rw [statusOf_updateOrder hid]
  split
  · rename_i hhere
    simp only [hstatus, hhere, statusOf]
  · rfl

theorem Stuck.congr (hstatus : s'.statusOf id = s.statusOf id) (hitems : s'.items = s.items) :
    s'.Stuck id ↔ s.Stuck id := by
  rw [Stuck, Stuck, hstatus, hitems]

/-- An order with an item that is not final is not stuck. -/
theorem not_stuck_of_open {i : Item} (hi : i ∈ s.items) (horder : i.orderId = id)
    (hopen : i.status.isFinal = false) : ¬ s.Stuck id := by
  rintro ⟨-, hall⟩
  rw [hall i hi horder] at hopen
  cases hopen

theorem not_stuck_of_status {o : Order} (ho : s.order? id = some o)
    (hstatus : o.status ≠ .processing) : ¬ s.Stuck id := by
  rintro ⟨hprocessing, -⟩
  rw [statusOf_some ho, Option.some.injEq] at hprocessing
  exact hstatus hprocessing

/-- Between calls an order in processing is stuck unless it has a pending item. -/
theorem Tidy.stuck_iff_none_pending (h : s.Tidy) : s.Stuck id ↔
    s.statusOf id = some .processing ∧ ¬ s.Has id .pending := by
  refine and_congr_right fun _ => ⟨?_, ?_⟩
  · rintro hall ⟨i, hi, horder, hpending⟩
    have hfinal := hall i hi horder
    rw [hpending] at hfinal
    cases hfinal
  · intro hnone i hi horder
    cases hstatus : i.status with
    | pending => exact absurd ⟨i, hi, horder, hstatus⟩ hnone
    | processing => exact absurd hstatus (h.idle i hi)
    | completed => rfl
    | failed => rfl

/-! Operations that leave stuck orders stuck and get no order stuck. -/

theorem stuck_createOrder {name : Option String}
    (hok : createOrder (Order.create id name) s = .ok ((), s')) (other : String) :
    s'.Stuck other ↔ s.Stuck other := by
  obtain ⟨hnew, rfl⟩ := createOrder_ok hok
  by_cases hhere : other = id
  · subst hhere
    have hnew : s.order? other = none := hnew
    have hcreated : ({ s with orders := s.orders ++ [Order.create other name] } : Store).order?
        other = some (Order.create other name) := by
      rw [order?, List.find?_append, ← order?, hnew]
      simp [Order.create]
    refine iff_of_false (not_stuck_of_status hcreated (by simp [Order.create])) ?_
    rintro ⟨hprocessing, -⟩
    rw [statusOf, hnew] at hprocessing
    cases hprocessing
  · refine Stuck.congr ?_ rfl
    rw [statusOf, order?, List.find?_append, ← order?]
    have hne : (id == other) = false := by simpa using Ne.symm hhere
    simp [Order.create, hne, statusOf]

/-- Only a drafted order gets a new item. -/
theorem stuck_addItem {item : Item} (hok : addItem item s = .ok ((), s')) (other : String) :
    s'.Stuck other ↔ s.Stuck other := by
  obtain ⟨o, ho, hdraft, -, -, rfl⟩ := addItem_ok hok
  have hstatus : (({ s with items := s.items ++ [item] } : Store).updateOrder item.orderId
      fun o => { o with total := o.total + 1 }).statusOf other = s.statusOf other := by
    rw [statusOf_same]
    · rfl
    · exact fun _ => rfl
    · exact fun _ => rfl
  by_cases hhere : other = item.orderId
  · have hnot : s.statusOf other ≠ some .processing := by
      rw [hhere, statusOf_some ho, hdraft]
      exact nofun
    exact iff_of_false (fun hstuck => hnot (hstatus ▸ hstuck.1)) fun hstuck => hnot hstuck.1
  · rw [Stuck, Stuck, hstatus]
    refine and_congr_right fun _ => ⟨fun hall i hi => hall i (List.mem_append_left _ hi), ?_⟩
    intro hall i hi horder
    rcases List.mem_append.mp hi with hold | hnew
    · exact hall i hold horder
    · rw [List.mem_singleton.mp hnew] at horder
      exact absurd horder.symm hhere

theorem stuck_attachFile {file : FileRef} (hok : attachFile file s = .ok ((), s'))
    (other : String) : s'.Stuck other ↔ s.Stuck other := by
  obtain ⟨i, -, -, -, -, -, -, rfl⟩ := attachFile_ok hok
  refine and_congr_right fun _ => ⟨?_, ?_⟩
  · intro hall j hj horder
    have hafter := hall _ (mem_updateItem.mpr ⟨j, hj, rfl⟩)
    split at hafter
    · exact hafter horder
    · exact hafter horder
  · intro hall j hj horder
    obtain ⟨k, hk, ⟨-, rfl⟩ | ⟨-, rfl⟩⟩ := updateItem_cases hj
    · exact hall k hk horder
    · exact hall _ hk horder

/-! Orders that were sent off have items. -/

/-- Whether every order that was sent off has items. -/
def Filled (s : Store) : Prop :=
  ∀ id o, s.order? id = some o → o.status ≠ .draft → 0 < o.total

theorem empty_filled : Store.empty.Filled := by
  intro id o ho
  simp [order?, Store.empty] at ho

theorem Filled.of_orders (h : s.Filled) (horders : s'.orders = s.orders) : s'.Filled := by
  intro id o ho
  rw [order?, horders] at ho
  exact h id o ho

theorem Filled.updateOrder (h : s.Filled) {id : String} {change : Order → Order}
    (hid : ∀ o, (change o).id = o.id) (hchange : ∀ o, s.order? id = some o →
      (change o).status ≠ .draft → 0 < (change o).total) : (s.updateOrder id change).Filled := by
  intro other o ho hsent
  rw [order?_updateOrder hid] at ho
  split at ho
  · obtain ⟨before, hbefore, rfl⟩ := Option.map_eq_some_iff.mp ho
    exact hchange before hbefore hsent
  · exact h other o ho hsent

/-- A change to an order that leaves its status and its number of items alone. -/
theorem Filled.retouched (h : s.Filled) {id : String} {change : Order → Order}
    (hsame : ∀ o, (change o).id = o.id ∧ (change o).status = o.status ∧
      (change o).total = o.total) : (s.updateOrder id change).Filled := by
  refine h.updateOrder (fun o => (hsame o).1) fun o ho hsent => ?_
  rw [(hsame o).2.2]
  rw [(hsame o).2.1] at hsent
  exact h id o ho hsent

/-- An order that was sent off before moves on. -/
theorem Filled.moved (h : s.Filled) {o : Order} (ho : s.order? id = some o)
    (hsent : o.status ≠ .draft) (target : OrderStatus) :
    (s.updateOrder id fun o => { o with status := target }).Filled := by
  refine h.updateOrder (fun _ => rfl) fun p hp _ => ?_
  obtain rfl : p = o := Option.some.inj (hp.symm.trans ho)
  exact h id p ho hsent

theorem filled_createOrder {name : Option String}
    (hok : createOrder (Order.create id name) s = .ok ((), s')) (h : s.Filled) : s'.Filled := by
  obtain ⟨-, rfl⟩ := createOrder_ok hok
  intro other o ho hsent
  rw [order?, List.find?_append, Option.or_eq_some_iff] at ho
  rcases ho with hold | ⟨-, hnew⟩
  · exact h other o hold hsent
  · have hcreated := List.mem_of_find?_eq_some hnew
    rw [List.mem_singleton.mp hcreated] at hsent
    exact absurd rfl hsent

theorem filled_addItem {item : Item} (hok : addItem item s = .ok ((), s')) (h : s.Filled) :
    s'.Filled := by
  obtain ⟨-, -, -, -, -, rfl⟩ := addItem_ok hok
  exact Filled.updateOrder (h.of_orders rfl) (fun _ => rfl) fun o _ _ => Nat.succ_pos o.total

/-- A step that gets no order stuck and none out again. -/
structure Calm (s s' : Store) : Prop where
  filled : s.Filled → s'.Filled
  stuck : ∀ id, s'.Stuck id ↔ s.Stuck id

theorem Calm.refl (s : Store) : s.Calm s := ⟨id, fun _ => Iff.rfl⟩

theorem Calm.trans {t : Store} (h : s.Calm s') (h' : s'.Calm t) : s.Calm t :=
  ⟨fun hs => h'.filled (h.filled hs), fun id => (h'.stuck id).trans (h.stuck id)⟩

theorem Calm.of_same (horders : s'.orders = s.orders) (hitems : s'.items = s.items) :
    s.Calm s' := by
  refine ⟨fun h => h.of_orders horders, fun id => Stuck.congr ?_ hitems⟩
  rw [statusOf, statusOf, order?, order?, horders]

/-- A change to an order that leaves its status and its number of items alone. -/
theorem Calm.updateOrder {change : Order → Order} (hsame : ∀ o, (change o).id = o.id ∧
    (change o).status = o.status ∧ (change o).total = o.total) :
    s.Calm (s.updateOrder id change) :=
  ⟨fun h => h.retouched hsame, fun other => Stuck.congr
    (statusOf_same (fun o => (hsame o).1) (fun o => (hsame o).2.1) other) rfl⟩

/-! Steps that move one order on. -/

/-- Where an order goes that leaves processing is out of the way; the others stay
where they are. -/
theorem stuck_moved {target : OrderStatus} (htarget : target ≠ .processing) (other : String) :
    (s.updateOrder id fun o => { o with status := target }).Stuck other ↔
      s.Stuck other ∧ other ≠ id := by
  have hstatus := s.statusOf_moved id target other
  by_cases hhere : other = id
  · rw [if_pos hhere] at hstatus
    refine iff_of_false ?_ fun hboth => hboth.2 hhere
    rintro ⟨hprocessing, -⟩
    rw [hstatus] at hprocessing
    obtain ⟨o, -, hsame⟩ := Option.map_eq_some_iff.mp hprocessing
    exact htarget hsame
  · rw [if_neg hhere] at hstatus
    rw [Stuck.congr hstatus rfl]
    exact (and_iff_left hhere).symm

/-- A roll-up gets its order out, and no other one. -/
theorem Tidy.stuck_rolledUp (h : s.Tidy) (hfilled : s.Filled) {o : Order}
    (ho : s.order? o.id = some o) (other : String) :
    (s.rolledUp o.id).Stuck other ↔ s.Stuck other ∧ other ≠ o.id := by
  by_cases hdue : o.status = .processing ∧ o.allResolved = true
  · obtain ⟨target, htarget, hmoves⟩ := rolledUp_resolved ho hdue.1 hdue.2
    rw [hmoves]
    apply stuck_moved
    rintro rfl
    have hleads := RollupFacts.leadsTo_target htarget
    cases hleads
  · rw [rolledUp_idle ho hdue]
    refine ⟨fun hstuck => ⟨hstuck, ?_⟩, And.left⟩
    rintro rfl
    obtain ⟨hmem, -⟩ := order?_mem ho
    have hprocessing : o.status = .processing := by
      have hstatus := hstuck.1
      rw [statusOf_some ho] at hstatus
      exact Option.some.inj hstatus
    have hpos := hfilled o.id o ho (by simp [hprocessing])
    have hresolved := (h.resolved_iff hmem).mpr hstuck.2
    exact hdue ⟨hprocessing, by simp [Order.allResolved, Order.resolved, hpos, hresolved]⟩

theorem filled_rolledUp (h : s.Filled) (id : String) : (s.rolledUp id).Filled := by
  rcases s.rolledUp_cases id with hsame | ⟨o, target, ho, hprocessing, -, hmoves⟩
  · rw [hsame]
    exact h
  · rw [hmoves]
    exact h.moved ho (by simp [hprocessing]) target

/-- The order of a retry has an item to process, whatever it was before. -/
theorem stuck_retry {failed next : Item} {o : Order} (hfound : s.item? failed.id = some failed)
    (hretry : next.retryOf = some failed.id) (hplace : next.orderId = failed.orderId)
    (hpending : next.status = .pending) (hok : retry next s = .ok (o, s')) (other : String) :
    s'.Stuck other ↔ s.Stuck other ∧ other ≠ next.orderId := by
  obtain ⟨failedId, found, -, htries, hitem, -, -, -, -, -, rfl, -⟩ := retry_ok hok
  obtain rfl : failed.id = failedId := Option.some.inj (hretry.symm.trans htries)
  obtain rfl : failed = found := Option.some.inj (hfound.symm.trans hitem)
  rw [← hplace]
  by_cases hhere : other = next.orderId
  · refine iff_of_false ?_ fun hboth => hboth.2 hhere
    have hlast : next ∈ s.items ++ [next] := by simp
    exact not_stuck_of_open hlast hhere.symm (by rw [hpending]; rfl)
  · have hstatus : (s.updateOrder next.orderId reopen).statusOf other = s.statusOf other := by
      rw [statusOf_updateOrder reopen_id, if_neg hhere]
    constructor
    · rintro ⟨hprocessing, hall⟩
      exact ⟨⟨hstatus ▸ hprocessing, fun i hi => hall i (List.mem_append_left _ hi)⟩, hhere⟩
    · rintro ⟨⟨hprocessing, hall⟩, -⟩
      refine ⟨hstatus ▸ hprocessing, fun i hi horder => ?_⟩
      rcases List.mem_append.mp hi with hold | hnew
      · exact hall i hold horder
      · rw [List.mem_singleton.mp hnew] at horder
        exact absurd horder.symm hhere

theorem filled_retry {next : Item} {o : Order} (hok : retry next s = .ok (o, s')) (h : s.Filled) :
    s'.Filled := by
  obtain ⟨-, failed, before, -, -, -, -, hbefore, hstatus, -, rfl, -⟩ := retry_ok hok
  have hsent : before.status ≠ .draft := by
    rintro hdraft
    simp [hdraft] at hstatus
  have hreopened : (s.updateOrder failed.orderId reopen).Filled := by
    refine h.updateOrder (fun _ => rfl) fun p hp _ => ?_
    obtain rfl : p = before := Option.some.inj (hp.symm.trans hbefore)
    exact h _ p hbefore hsent
  exact hreopened.of_orders rfl

/-- An order that admits a merge is not in processing, before and after it. -/
theorem calm_kept {o : Order} (ho : s.order? o.id = some o) (hadmits : s.AdmitsMerge o)
    (table : Merged) : s.Calm (s.kept o.id o.status table) := by
  let saved : Store := { s with merged := s.merged.insert o.id table }
  have hnoted : s.Calm (saved.noted o.id none) := by
    have hsaved : s.Calm saved := .of_same rfl rfl
    exact hsaved.trans (.updateOrder fun _ => ⟨rfl, rfl, rfl⟩)
  rcases hadmits with hmapping | ⟨hcompleted, -⟩
  · rw [kept, if_pos hmapping]
    have hthere : (saved.noted o.id none).order? o.id = some { o with error := none } := by
      rw [noted, order?_updateOrder, if_pos rfl]
      · exact congrArg (Option.map _) ho
      · exact fun _ => rfl
    refine hnoted.trans ⟨fun h => h.moved hthere (by simp [hmapping]) _, fun other => ?_⟩
    rw [stuck_moved (by decide)]
    refine and_iff_left_of_imp ?_
    rintro hstuck rfl
    exact not_stuck_of_status hthere (by simp [hmapping]) hstuck
  · rw [kept, if_neg (by simp [hcompleted])]
    exact hnoted

/-! Processing an item. -/

theorem countResolution_same (status : ItemStatus) (o : Order) :
    (countResolution status o).id = o.id ∧ (countResolution status o).status = o.status ∧
      (countResolution status o).total = o.total := by
  rw [countResolution_eq]
  exact ⟨rfl, rfl, rfl⟩

theorem settleItem_order? {resolved : Item} {o : Order}
    (ho : s.order? resolved.orderId = some o) (results : List ExtractionResult) :
    (s.settleItem resolved results).order? resolved.orderId =
      some (countResolution resolved.status o) := by
  rw [settleItem, order?_updateOrder, if_pos rfl]
  · exact congrArg (Option.map _) ho
  · exact fun o => (countResolution_same _ o).1

/-- An order that is not in processing stays where it is when an item of it is
processed. -/
theorem processed_statusOf {i : Item} {o : Order} (ho : s.order? i.orderId = some o)
    (hnot : o.status ≠ .processing) (now : Time.Timestamp) (ex : Service.Examination) :
    (s.processed i now ex).statusOf i.orderId = some o.status := by
  let settled : Store := s.settleItem (i.judged now ex.verdict) ex.results
  have hsettled : settled.order? i.orderId =
      some (countResolution (i.judged now ex.verdict).status o) := by
    rw [← (i.judged_keeps now ex.verdict).2.1] at ho ⊢
    exact settleItem_order? ho ex.results
  have hstatus : (countResolution (i.judged now ex.verdict).status o).status = o.status :=
    (countResolution_same _ o).2.1
  rcases settled.rolledUp_cases i.orderId with hsame | ⟨p, target, hp, hprocessing, -, -⟩
  · rw [processed, hsame, statusOf_some hsettled, hstatus]
  · rw [hsettled, Option.some.injEq] at hp
    rw [← hp, hstatus] at hprocessing
    exact absurd hprocessing hnot

theorem filled_processed (h : s.Filled) (i : Item) (now : Time.Timestamp)
    (ex : Service.Examination) : (s.processed i now ex).Filled := by
  refine filled_rolledUp ?_ i.orderId
  exact Filled.retouched (h.of_orders rfl) fun o => countResolution_same _ o

/-- Processing an item gets no order stuck: its own order is not in processing, or
has other items to process, or goes where its items take it. -/
theorem Tidy.stuck_processed (h : s.Tidy) (hfilled : s.Filled) {i : Item} {o : Order}
    (hfound : s.item? i.id = some i) (hpending : i.status = .pending)
    (ho : s.order? i.orderId = some o) (now : Time.Timestamp) (ex : Service.Examination)
    (other : String) : (s.processed i now ex).Stuck other ↔ s.Stuck other := by
  obtain ⟨hi, -⟩ := item?_mem hfound
  by_cases hhere : other = i.orderId
  · subst hhere
    have hopen : ¬ s.Stuck i.orderId := not_stuck_of_open hi rfl (by rw [hpending]; rfl)
    refine iff_of_false ?_ hopen
    rintro ⟨hprocessing, hall⟩
    by_cases hstatus : o.status = .processing
    -- with nothing left to process the order is rolled up, so it is not in processing
    · have hpos := hfilled i.orderId o ho (by simp [hstatus])
      obtain ⟨after, hafter, -, -, hgoes⟩ :=
        h.processed_order hfound hpending ho hstatus hpos now ex
      rw [statusOf_some hafter, Option.some.injEq] at hprocessing
      have hnone : ¬ (s.processed i now ex).Has i.orderId .pending := by
        rintro ⟨j, hj, horder, hstill⟩
        have hfinal := hall j hj horder
        rw [hstill] at hfinal
        cases hfinal
      have hleads := RollupFacts.leadsTo_target (hgoes hnone)
      rw [hprocessing] at hleads
      cases hleads
    · rw [processed_statusOf ho hstatus, Option.some.injEq] at hprocessing
      exact hstatus hprocessing
  · have hstatus : (s.processed i now ex).statusOf other = s.statusOf other := by
      rw [statusOf, processed_order?_of_ne s i now ex hhere, statusOf]
    obtain ⟨-, hplace, -, -⟩ := i.judged_keeps now ex.verdict
    rw [Stuck, Stuck, hstatus]
    refine and_congr_right fun _ => ⟨?_, ?_⟩
    · intro hall j hj horder
      have hne : j.id ≠ i.id := by
        intro hid
        rw [h.item_unique hj hi hid] at horder
        exact hhere horder.symm
      refine hall j ?_ horder
      rw [processed_items]
      exact mem_updateItem.mpr ⟨j, hj, if_neg (by simpa using hne)⟩
    · intro hall j hj horder
      rcases mem_processed hj with rfl | ⟨hold, -⟩
      · exact absurd (horder.symm.trans hplace) hhere
      · exact hall j hold horder

end Store

end Collate
