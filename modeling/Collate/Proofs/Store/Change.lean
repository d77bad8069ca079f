import Collate.Proofs.Store.History

/-!
The seven ways in which an accepted operation changes orders and items. An order
or an item is new, an order is changed apart from its counters, an open item is
worked on, an item is resolved, or a failed item is tried again. None of them
touches an item that is final or the keys of an order that was sent off.
-/

namespace Collate.Store

variable {s s' t : Store}

/-- Ids are not repeated, and items are in orders. -/
structure Keyed (s : Store) : Prop where
  orders_nodup : (s.orders.map (·.id)).Nodup
  items_nodup : (s.items.map (·.id)).Nodup
  placed : ∀ i ∈ s.items, i.orderId ∈ s.orders.map (·.id)

theorem empty_keyed : Store.empty.Keyed := by
  refine ⟨List.nodup_nil, List.nodup_nil, ?_⟩
  simp [Store.empty]

theorem Coherent.keyed (h : s.Coherent) : s.Keyed := ⟨h.orders_nodup, h.items_nodup, h.placed⟩

theorem Keyed.item_unique (h : s.Keyed) {i j : Item} (hi : i ∈ s.items) (hj : j ∈ s.items)
    (hid : i.id = j.id) : i = j :=
  List.inj_on_of_nodup_map h.items_nodup hi hj hid

/-- The order of an item is found. -/
theorem Keyed.order?_placed (h : s.Keyed) {i : Item} (hi : i ∈ s.items) :
    ∃ o, s.order? i.orderId = some o := by
  obtain ⟨o, ho, hid⟩ := List.mem_map.mp (h.placed i hi)
  rw [← Option.ne_none_iff_exists', Ne, order?_eq_none]
  exact fun hall => hall o ho hid

theorem Keyed.order_unique (h : s.Keyed) {o p : Order} (ho : o ∈ s.orders) (hp : p ∈ s.orders)
    (hid : o.id = p.id) : o = p :=
  List.inj_on_of_nodup_map h.orders_nodup ho hp hid

/-- A change to an order that keeps its id and its counters. Once the order was
sent off, it does not go back and its keys stay. -/
structure Retouches (change : Order → Order) (o : Order) : Prop where
  id : (change o).id = o.id
  counters : (change o).total = o.total ∧ (change o).completed = o.completed ∧
    (change o).failed = o.failed
  sent : o.status ≠ .draft → (change o).status ≠ .draft ∧ (change o).mappingKeys = o.mappingKeys

inductive Change (s s' : Store) : Prop
  | same (horders : s'.orders = s.orders) (hitems : s'.items = s.items)
  | created {o : Order} (hnew : s.order? o.id = none)
      (hzero : o.total = 0 ∧ o.completed = 0 ∧ o.failed = 0)
      (horders : s'.orders = s.orders ++ [o]) (hitems : s'.items = s.items)
  | retouched {id : String} {change : Order → Order}
      (hchange : ∀ o ∈ s.orders, o.id = id → Retouches change o)
      (horders : s'.orders = (s.updateOrder id change).orders) (hitems : s'.items = s.items)
  | added {item : Item} (hnew : s.item? item.id = none)
      (horder : ∃ o, s.order? item.orderId = some o) (hpending : item.status = .pending)
      (horders : s'.orders =
        (s.updateOrder item.orderId fun o => { o with total := o.total + 1 }).orders)
      (hitems : s'.items = s.items ++ [item])
  | worked {i : Item} {change : Item → Item} (hi : i ∈ s.items) (hkeeps : KeepsPlace change)
      (hopen : i.status.isFinal = false) (hstays : (change i).status.isFinal = false)
      (horders : s'.orders = s.orders) (hitems : s'.items = (s.updateItem i.id change).items)
  | resolved {i held : Item} (hi : i ∈ s.items) (hid : i.id = held.id)
      (hprocessing : i.status = .processing) (hfinal : held.status.isFinal = true)
      (horders : s'.orders = (s.updateOrder i.orderId (countResolution held.status)).orders)
      (hitems : s'.items = (s.updateItem i.id (settle held)).items)
  | retried {next failed : Item} (hfailed : failed ∈ s.items) (hstatus : failed.status = .failed)
      (hfree : s.isRetried failed.id = false) (hretry : next.retryOf = some failed.id)
      (hplace : failed.orderId = next.orderId) (hnew : s.item? next.id = none)
      (horders : s'.orders = (s.updateOrder next.orderId reopen).orders)
      (hitems : s'.items = s.items ++ [next])

/-! Operations on orders. -/

theorem change_createOrder {id : String} {name : Option String}
    (hok : createOrder (Order.create id name) s = .ok ((), s')) : s.Change s' := by
  obtain ⟨hnew, rfl⟩ := createOrder_ok hok
  exact .created hnew ⟨rfl, rfl, rfl⟩ rfl rfl

theorem change_setMappingKeys (h : s.Keyed) {id : String} {keys : List String}
    (hok : setMappingKeys id keys s = .ok ((), s')) : s.Change s' := by
  obtain ⟨⟨found, hfound, hdraft⟩, rfl⟩ := setMappingKeys_ok hok
  obtain ⟨hmem, hid⟩ := order?_mem hfound
  refine .retouched ?_ rfl rfl
  intro o ho hoid
  refine ⟨rfl, ⟨rfl, rfl, rfl⟩, fun hsent => ?_⟩
  rw [h.order_unique ho hmem (hoid.trans hid.symm)] at hsent
  exact absurd hdraft hsent

/-- A change to an order that leaves status, counters and keys alone. -/
theorem change_updateOrder {id : String} {change : Order → Order}
    (hsame : ∀ o, (change o).id = o.id ∧ (change o).status = o.status ∧
      (change o).mappingKeys = o.mappingKeys)
    (hcounters : ∀ o, (change o).total = o.total ∧ (change o).completed = o.completed ∧
      (change o).failed = o.failed) : s.Change (s.updateOrder id change) := by
  refine .retouched (fun o _ _ => ⟨(hsame o).1, hcounters o, fun hsent => ?_⟩) rfl rfl
  rw [(hsame o).2.1]
  exact ⟨hsent, (hsame o).2.2⟩

/-- An order does not go back to being drafted. -/
theorem change_status {id : String} {target : OrderStatus} (htarget : target ≠ .draft) :
    s.Change (s.updateOrder id fun o => { o with status := target }) := by
  refine .retouched ?_ rfl rfl
  intro o _ _
  exact ⟨rfl, ⟨rfl, rfl, rfl⟩, fun _ => ⟨htarget, rfl⟩⟩

theorem ne_draft_of_leadsTo {a b : OrderStatus} (h : a.leadsTo b = true) : b ≠ .draft := by
  rintro rfl
  cases a <;> simp [OrderStatus.leadsTo] at h

theorem change_submit {id : String} {pending : List String}
    (hok : submit id s = .ok (pending, s')) : s.Change s' := by
  obtain ⟨-, -, -, -, -, rfl⟩ := submit_ok hok
  exact change_status (by decide)

theorem change_moveOrder {id : String} {source target : OrderStatus} {moved : Bool}
    (hok : moveOrder id source target s = .ok (moved, s')) : s.Change s' := by
  obtain ⟨hleads, ⟨-, -, -, -, rfl⟩ | ⟨-, rfl⟩⟩ := moveOrder_ok hok
  · exact change_status (ne_draft_of_leadsTo hleads)
  · exact .same rfl rfl

theorem change_rollUp {snapshot : Order} {target : OrderStatus} {moved : Bool}
    (hok : rollUp snapshot target s = .ok (moved, s')) : s.Change s' := by
  obtain ⟨-, hleads, ⟨-, -, -, -, rfl⟩ | ⟨-, rfl⟩⟩ := rollUp_ok hok
  · exact change_status (ne_draft_of_leadsTo hleads)
  · exact .same rfl rfl

/-! Operations on items. -/

theorem change_addItem {item : Item} (hok : addItem item s = .ok ((), s')) : s.Change s' := by
  obtain ⟨o, ho, -, hpending, hadmits, rfl⟩ := addItem_ok hok
  exact .added hadmits.new ⟨o, ho⟩ hpending rfl rfl

theorem change_attachFile {file : FileRef} (hok : attachFile file s = .ok ((), s')) :
    s.Change s' := by
  obtain ⟨i, -, hfound, -, -, hopen, -, rfl⟩ := attachFile_ok hok
  refine .worked (item?_mem hfound).1 ?_ hopen ?_ rfl rfl
  · exact fun i => ⟨rfl, rfl, rfl⟩
  · exact hopen

theorem change_begin {id : String} {now : Time.Timestamp} {started : Option Item}
    (hok : begin id now s = .ok (started, s')) : s.Change s' := by
  obtain ⟨i, hfound, ⟨hpending, -, rfl⟩ | ⟨-, -, rfl⟩⟩ := begin_ok hok
  · obtain ⟨hi, rfl⟩ := item?_mem hfound
    refine .worked hi ?_ (by rw [hpending]; rfl) ?_ rfl rfl
    · exact fun i => ⟨rfl, rfl, rfl⟩
    · rfl
  · exact .same rfl rfl

theorem change_resolve {held : Item} {o : Order} (hok : resolve held s = .ok (o, s'))
    (horder : ∀ i ∈ s.items, i.id = held.id → i.orderId = held.orderId) : s.Change s' := by
  obtain ⟨hfinal, ⟨i, hfound, hprocessing⟩, rfl, -⟩ := resolve_ok hok
  obtain ⟨hi, hid⟩ := item?_mem hfound
  rw [← hid, ← horder i hi hid]
  exact .resolved hi hid hprocessing hfinal rfl rfl

theorem change_retry {next : Item} {o : Order} (hok : retry next s = .ok (o, s'))
    (hplace : ∀ i ∈ s.items, next.retryOf = some i.id → i.orderId = next.orderId) :
    s.Change s' := by
  obtain ⟨failedId, failed, before, hretry, hfound, hstatus, hfree, -, -, hadmits, rfl, -⟩ :=
    retry_ok hok
  obtain ⟨hfailed, rfl⟩ := item?_mem hfound
  have horder := hplace failed hfailed hretry
  exact .retried hfailed hstatus hfree hretry horder hadmits.new (by rw [horder]) rfl

/-- Every accepted call is one of these changes. -/
theorem Call.change (h : s.Keyed) {c : Call}
    (hfitting : ∀ item, c.handed? = some item → Fitting s item) (hok : c.perform s = .ok s') :
    s.Change s' := by
  cases c with
  | createOrder id name =>
    obtain ⟨_, hok⟩ := map_snd_eq_ok.mp hok
    exact change_createOrder hok
  | addItem item =>
    obtain ⟨_, hok⟩ := map_snd_eq_ok.mp hok
    exact change_addItem hok
  | attachFile file =>
    obtain ⟨_, hok⟩ := map_snd_eq_ok.mp hok
    exact change_attachFile hok
  | setMappingKeys id keys =>
    obtain ⟨_, hok⟩ := map_snd_eq_ok.mp hok
    exact change_setMappingKeys h hok
  | setMappingFile id reference =>
    obtain ⟨_, hok⟩ := map_snd_eq_ok.mp hok
    rw [setMappingFile_ok hok]
    exact change_updateOrder (fun _ => ⟨rfl, rfl, rfl⟩) fun _ => ⟨rfl, rfl, rfl⟩
  | submit id =>
    obtain ⟨_, hok⟩ := map_snd_eq_ok.mp hok
    exact change_submit hok
  | begin id now =>
    obtain ⟨_, hok⟩ := map_snd_eq_ok.mp hok
    exact change_begin hok
  | putResult result =>
    obtain ⟨_, hok⟩ := map_snd_eq_ok.mp hok
    obtain ⟨horders, hitems, -⟩ := putResult_ok hok
    exact .same horders hitems
  | resolve held =>
    obtain ⟨_, hok⟩ := map_snd_eq_ok.mp hok
    exact change_resolve hok (hfitting held rfl).same_order
  | moveOrder id source target =>
    obtain ⟨_, hok⟩ := map_snd_eq_ok.mp hok
    exact change_moveOrder hok
  | rollUp snapshot target =>
    obtain ⟨_, hok⟩ := map_snd_eq_ok.mp hok
    exact change_rollUp hok
  | noteError id error =>
    obtain ⟨_, hok⟩ := (map_snd_eq_ok (x := Store.noteError id error s)).mp hok
    rw [noteError_ok hok]
    exact change_updateOrder (fun _ => ⟨rfl, rfl, rfl⟩) fun _ => ⟨rfl, rfl, rfl⟩
  | retry next =>
    obtain ⟨_, hok⟩ := map_snd_eq_ok.mp hok
    exact change_retry hok (hfitting next rfl).retry_order
  | saveMerged id table =>
    obtain ⟨_, hok⟩ := map_snd_eq_ok.mp hok
    obtain ⟨-, rfl⟩ := saveMerged_ok hok
    exact .same rfl rfl
  | setReportPaths id paths =>
    obtain ⟨_, hok⟩ := (map_snd_eq_ok (x := Store.setReportPaths id paths s)).mp hok
    rw [setReportPaths_ok hok]
    exact change_updateOrder (fun _ => ⟨rfl, rfl, rfl⟩) fun _ => ⟨rfl, rfl, rfl⟩
  | saveTemplate template =>
    obtain ⟨_, hok⟩ := map_snd_eq_ok.mp hok
    obtain ⟨horders, hitems, -⟩ := saveTemplate_ok hok
    exact .same horders hitems
  | saveBinding binding =>
    obtain ⟨_, hok⟩ := map_snd_eq_ok.mp hok
    obtain ⟨horders, hitems, -⟩ := saveBinding_ok hok
    exact .same horders hitems

/-! Ids. -/

theorem Keyed.of_ids (h : s.Keyed) (horders : s'.orders.map (·.id) = s.orders.map (·.id))
    (hitems : s'.items.map (fun i => (i.id, i.orderId)) = s.items.map fun i => (i.id, i.orderId)) :
    s'.Keyed := by
  have hids : s'.items.map (·.id) = s.items.map (·.id) := by
    simpa [Function.comp_def] using congrArg (List.map Prod.fst) hitems
  refine ⟨horders ▸ h.orders_nodup, hids ▸ h.items_nodup, ?_⟩
  intro i hi
  have hplace : (i.id, i.orderId) ∈ s.items.map fun i => (i.id, i.orderId) :=
    hitems ▸ List.mem_map_of_mem hi
  obtain ⟨j, hj, hplace⟩ := List.mem_map.mp hplace
  rw [horders, ← (Prod.mk.inj hplace).2]
  exact h.placed j hj

theorem updateOrder_ids_of {id : String} {change : Order → Order}
    (hid : ∀ o ∈ s.orders, o.id = id → (change o).id = o.id) :
    (s.updateOrder id change).orders.map (·.id) = s.orders.map (·.id) := by
  rw [updateOrder, List.map_map]
  apply List.map_congr_left
  intro o ho
  by_cases hhere : o.id = id
  · simp [hhere, hid o ho hhere]
  · simp [hhere]

theorem updateItem_places {id : String} {change : Item → Item} (hkeeps : KeepsPlace change) :
    (s.updateItem id change).items.map (fun i => (i.id, i.orderId)) =
      s.items.map fun i => (i.id, i.orderId) := by
  rw [updateItem, List.map_map]
  apply List.map_congr_left
  intro i _
  simp only [Function.comp_apply]
  split
  · rw [(hkeeps i).1, (hkeeps i).2.1]
  · rfl

theorem Keyed.insert (h : s.Keyed) {item : Item} (hitems : s'.items = s.items ++ [item])
    (horders : s'.orders.map (·.id) = s.orders.map (·.id)) (hnew : s.item? item.id = none)
    (hplaced : item.orderId ∈ s.orders.map (·.id)) : s'.Keyed := by
  refine ⟨horders ▸ h.orders_nodup, ?_, ?_⟩
  · rw [hitems]
    exact nodup_map_concat h.items_nodup (item?_eq_none.mp hnew)
  · intro i hi
    rw [hitems, List.mem_append, List.mem_singleton] at hi
    rw [horders]
    rcases hi with hold | rfl
    · exact h.placed i hold
    · exact hplaced

theorem reopen_id (o : Order) : (reopen o).id = o.id := rfl

theorem settle_keeps (held : Item) : KeepsPlace (settle held) := fun _ => ⟨rfl, rfl, rfl⟩

theorem Keyed.change (h : s.Keyed) (hchange : s.Change s') : s'.Keyed := by
  cases hchange with
  | same horders hitems => exact h.of_ids (by rw [horders]) (by rw [hitems])
  | @created o hnew hzero horders hitems =>
    refine ⟨?_, hitems ▸ h.items_nodup, ?_⟩
    · rw [horders]
      exact nodup_map_concat h.orders_nodup (order?_eq_none.mp hnew)
    · intro i hi
      rw [horders, List.map_append, List.mem_append]
      exact Or.inl (h.placed i (hitems ▸ hi))
  | retouched hchange horders hitems =>
    exact h.of_ids (by rw [horders, updateOrder_ids_of fun o ho hid => (hchange o ho hid).id])
      (by rw [hitems])
  | added hnew horder hpending horders hitems =>
    obtain ⟨o, ho⟩ := horder
    obtain ⟨hmem, hid⟩ := order?_mem ho
    refine h.insert hitems ?_ hnew (hid ▸ List.mem_map_of_mem hmem)
    rw [horders]
    exact updateOrder_ids fun _ => rfl
  | worked hi hkeeps hopen hstays horders hitems =>
    exact h.of_ids (by rw [horders]) (by rw [hitems, updateItem_places hkeeps])
  | resolved hi hid hprocessing hfinal horders hitems =>
    refine h.of_ids ?_ (by rw [hitems, updateItem_places (settle_keeps _)])
    rw [horders, updateOrder_ids fun o => (countResolution_counters _ o).1]
  | @retried next failed hfailed hstatus hfree hretry hplace hnew horders hitems =>
    refine h.insert hitems ?_ hnew (hplace ▸ h.placed failed hfailed)
    rw [horders, updateOrder_ids reopen_id]

/-! What stays. -/

/-- Items that are final stay as they are. Orders that were sent off do not go
back, and their keys stay. -/
structure Frozen (s s' : Store) : Prop where
  items : ∀ i ∈ s.items, i.status.isFinal = true → i ∈ s'.items
  orders : ∀ o ∈ s.orders, o.status ≠ .draft →
    ∃ o' ∈ s'.orders, o'.id = o.id ∧ o'.status ≠ .draft ∧ o'.mappingKeys = o.mappingKeys

theorem Frozen.refl (s : Store) : s.Frozen s :=
  ⟨fun _ hi _ => hi, fun o ho hsent => ⟨o, ho, rfl, hsent, rfl⟩⟩

theorem Frozen.trans (h : s.Frozen s') (h' : s'.Frozen t) : s.Frozen t := by
  refine ⟨fun i hi hfinal => h'.items i (h.items i hi hfinal) hfinal, ?_⟩
  intro o ho hsent
  obtain ⟨o', ho', hid, hsent', hkeys⟩ := h.orders o ho hsent
  obtain ⟨o'', ho'', hid', hsent'', hkeys'⟩ := h'.orders o' ho' hsent'
  exact ⟨o'', ho'', hid'.trans hid, hsent'', hkeys'.trans hkeys⟩

theorem Frozen.same_keys (h : s.Frozen s') (hs' : s'.Keyed) {id : String} {o o' : Order}
    (ho : s.order? id = some o) (hsent : o.status ≠ .draft) (ho' : s'.order? id = some o') :
    o'.mappingKeys = o.mappingKeys := by
  obtain ⟨homem, hoid⟩ := order?_mem ho
  obtain ⟨ho'mem, ho'id⟩ := order?_mem ho'
  obtain ⟨after, hafter, hid, -, hkeys⟩ := h.orders o homem hsent
  rw [hs'.order_unique ho'mem hafter (by rw [ho'id, hid, hoid]), hkeys]

theorem frozen_orders_of_update {id : String} {change : Order → Order}
    (hchange : ∀ o ∈ s.orders, o.id = id → (change o).id = o.id ∧ (o.status ≠ .draft →
      (change o).status ≠ .draft ∧ (change o).mappingKeys = o.mappingKeys))
    (horders : s'.orders = (s.updateOrder id change).orders) :
    ∀ o ∈ s.orders, o.status ≠ .draft →
      ∃ o' ∈ s'.orders, o'.id = o.id ∧ o'.status ≠ .draft ∧ o'.mappingKeys = o.mappingKeys := by
  intro o ho hsent
  rw [horders]
  refine ⟨_, mem_updateOrder.mpr ⟨o, ho, rfl⟩, ?_⟩
  by_cases hid : o.id = id
  · rw [if_pos (by simpa using hid)]
    obtain ⟨hsame, hkept⟩ := hchange o ho hid
    exact ⟨hsame, hkept hsent⟩
  · rw [if_neg (by simpa using hid)]
    exact ⟨rfl, hsent, rfl⟩

/-- Changing an open item leaves the final ones alone. -/
theorem Keyed.final_mem_updateItem (h : s.Keyed) {i : Item} (hi : i ∈ s.items)
    (hopen : i.status.isFinal = false) {change : Item → Item} {j : Item} (hj : j ∈ s.items)
    (hfinal : j.status.isFinal = true) : j ∈ (s.updateItem i.id change).items := by
  have hne : j.id ≠ i.id := by
    intro hid
    rw [h.item_unique hj hi hid, hopen] at hfinal
    cases hfinal
  exact mem_updateItem.mpr ⟨j, hj, if_neg (by simpa using hne)⟩

theorem Keyed.frozen (h : s.Keyed) (hchange : s.Change s') : s.Frozen s' := by
  cases hchange with
  | same horders hitems =>
    exact ⟨fun i hi _ => hitems ▸ hi, fun o ho hsent => ⟨o, horders ▸ ho, rfl, hsent, rfl⟩⟩
  | created hnew hzero horders hitems =>
    refine ⟨fun i hi _ => hitems ▸ hi, fun o ho hsent => ⟨o, ?_, rfl, hsent, rfl⟩⟩
    rw [horders]
    exact List.mem_append_left _ ho
  | retouched hchange horders hitems =>
    refine ⟨fun i hi _ => hitems ▸ hi, frozen_orders_of_update ?_ horders⟩
    exact fun o ho hid => ⟨(hchange o ho hid).id, (hchange o ho hid).sent⟩
  | added hnew horder hpending horders hitems =>
    refine ⟨?_, frozen_orders_of_update ?_ horders⟩
    · intro i hi _
      rw [hitems]
      exact List.mem_append_left _ hi
    · exact fun o _ _ => ⟨rfl, fun hsent => ⟨hsent, rfl⟩⟩
  | worked hi hkeeps hopen hstays horders hitems =>
    refine ⟨?_, fun o ho hsent => ⟨o, horders ▸ ho, rfl, hsent, rfl⟩⟩
    intro j hj hfinal
    rw [hitems]
    exact h.final_mem_updateItem hi hopen hj hfinal
  | @resolved i held hi hid hprocessing hfinal horders hitems =>
    refine ⟨?_, frozen_orders_of_update ?_ horders⟩
    · intro j hj hfinal
      rw [hitems]
      exact h.final_mem_updateItem hi (by rw [hprocessing]; rfl) hj hfinal
    · intro o _ _
      cases held.status <;> exact ⟨rfl, fun hsent => ⟨hsent, rfl⟩⟩
  | retried hfailed hstatus hfree hretry hplace hnew horders hitems =>
    refine ⟨?_, frozen_orders_of_update ?_ horders⟩
    · intro i hi _
      rw [hitems]
      exact List.mem_append_left _ hi
    · intro o _ _
      refine ⟨rfl, fun hsent => ⟨?_, rfl⟩⟩
      simp only [reopen, releaseFailed]
      split
      · exact OrderStatus.noConfusion
      · exact hsent

end Collate.Store
