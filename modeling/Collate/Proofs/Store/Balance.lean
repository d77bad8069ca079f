import Collate.Proofs.Store.Counters

/-!
Operations keep a store balanced. Most of them touch neither counters nor what
is counted. Resolving an item moves one item from the open ones to the completed
or failed ones, adding an item makes one more, and a retry puts a new item in
the slot of a failed one. The last two do so only for items of the right kind:
an item that is added must not be a retry, and a retry must not be final.
-/

namespace Collate.Store

variable {s s' : Store}

/-! Changes to orders. -/

theorem mem_updateOrder {id : String} {change : Order → Order} {o : Order} :
    o ∈ (s.updateOrder id change).orders ↔
      ∃ before ∈ s.orders, (if before.id == id then change before else before) = o := by
  simp [updateOrder]

/-- What one change leaves of an order. -/
theorem updateOrder_cases {id : String} {change : Order → Order} {o : Order}
    (h : o ∈ (s.updateOrder id change).orders) : ∃ before ∈ s.orders,
      (before.id = id ∧ o = change before) ∨ (before.id ≠ id ∧ o = before) := by
  obtain ⟨before, hbefore, rfl⟩ := mem_updateOrder.mp h
  refine ⟨before, hbefore, ?_⟩
  by_cases hid : before.id = id
  · exact Or.inl ⟨hid, if_pos (by simpa using hid)⟩
  · exact Or.inr ⟨hid, if_neg (by simpa using hid)⟩

theorem updateOrder_ids {id : String} {change : Order → Order}
    (hid : ∀ o, (change o).id = o.id) :
    (s.updateOrder id change).orders.map (·.id) = s.orders.map (·.id) := by
  simp only [updateOrder, List.map_map]
  apply List.map_congr_left
  intro o _
  by_cases h : o.id = id
  · simp [h, hid]
  · simp [h]

/-- Coherence is about the ids of orders and about items only. -/
theorem Coherent.of_ids (h : s.Coherent)
    (horders : s'.orders.map (·.id) = s.orders.map (·.id)) (hitems : s'.items = s.items) :
    s'.Coherent := by
  refine ⟨horders ▸ h.orders_nodup, hitems ▸ h.items_nodup, ?_, hitems ▸ h.retries⟩
  rw [hitems, horders]
  exact h.placed

theorem countOf_of_items (hitems : s'.items = s.items) (order : String) (p : Item → Bool) :
    s'.countOf order p = s.countOf order p := by
  rw [countOf, countOf, hitems]

theorem isRetried_of_items (hitems : s'.items = s.items) (id : String) :
    s'.isRetried id = s.isRetried id := by
  rw [isRetried, isRetried, hitems]

/-- Exactness of an order is about its id, its counters and the items. -/
theorem Exact.of_items {o o' : Order} (h : s.Exact o) (hitems : s'.items = s.items)
    (hid : o'.id = o.id)
    (hsame : o'.total = o.total ∧ o'.completed = o.completed ∧ o'.failed = o.failed) :
    s'.Exact o' := by
  obtain ⟨htotal, hcompleted, hfailed⟩ := hsame
  refine ⟨?_, ?_, ?_⟩
  · rw [hcompleted, hid, countOf_of_items hitems, h.completed]
  · simp only [hfailed, hid, countOf_of_items hitems, isRetried_of_items hitems, h.failed]
  · simp only [htotal, hid, countOf_of_items hitems, isRetried_of_items hitems, h.total]

/-- Changes outside orders and items keep the balance. -/
theorem Balanced.of_eq (h : s.Balanced) (horders : s'.orders = s.orders)
    (hitems : s'.items = s.items) : s'.Balanced := by
  refine ⟨h.toCoherent.of_ids (by rw [horders]) hitems, ?_⟩
  intro o ho
  rw [horders] at ho
  exact (h.exact o ho).of_items hitems rfl ⟨rfl, rfl, rfl⟩

/-- Changes to an order that leave its counters alone keep the balance. -/
theorem Balanced.updateOrder (h : s.Balanced) {id : String} {change : Order → Order}
    (hid : ∀ o, (change o).id = o.id)
    (hsame : ∀ o, (change o).total = o.total ∧ (change o).completed = o.completed ∧
      (change o).failed = o.failed) : (s.updateOrder id change).Balanced := by
  refine ⟨h.toCoherent.of_ids (updateOrder_ids hid) rfl, ?_⟩
  intro o ho
  obtain ⟨before, hbefore, hafter⟩ := updateOrder_cases ho
  have hexact := h.exact before hbefore
  rcases hafter with ⟨-, rfl⟩ | ⟨-, rfl⟩
  · exact hexact.of_items rfl (hid before) (hsame before)
  · exact hexact.of_items rfl rfl ⟨rfl, rfl, rfl⟩

theorem Balanced.createOrder (h : s.Balanced) {id : String} {name : Option String}
    (hok : createOrder (Order.create id name) s = .ok ((), s')) : s'.Balanced := by
  obtain ⟨hnew, rfl⟩ := createOrder_ok hok
  have hother : ∀ o ∈ s.orders, o.id ≠ id := order?_eq_none.mp hnew
  refine ⟨⟨?_, h.items_nodup, ?_, h.retries⟩, ?_⟩
  · exact nodup_map_concat h.orders_nodup hother
  · intro i hi
    rw [List.map_append, List.mem_append]
    exact Or.inl (h.placed i hi)
  · intro o ho
    rcases List.mem_append.mp ho with hold | hcreated
    · exact (h.exact o hold).of_items rfl rfl ⟨rfl, rfl, rfl⟩
    · -- no item is in the new order yet
      rw [List.mem_singleton.mp hcreated]
      have hzero : ∀ p, Store.countOf { s with orders := s.orders ++ [Order.create id name] } id p
          = 0 := by
        intro p
        rw [countOf, List.countP_eq_zero]
        intro i hi
        obtain ⟨o, ho, hid⟩ := List.mem_map.mp (h.placed i hi)
        have hne : i.orderId ≠ id := fun heq => hother o ho (hid.trans heq)
        simp [hne]
      exact ⟨(hzero _).symm, (hzero _).symm, (hzero _).symm⟩

theorem Balanced.setMappingKeys (h : s.Balanced) {id : String} {keys : List String}
    (hok : Store.setMappingKeys id keys s = .ok ((), s')) : s'.Balanced := by
  rw [(setMappingKeys_ok hok).2]
  exact h.updateOrder (fun _ => rfl) fun _ => ⟨rfl, rfl, rfl⟩

theorem Balanced.setMappingFile (h : s.Balanced) {id reference : String}
    (hok : Store.setMappingFile id reference s = .ok ((), s')) : s'.Balanced := by
  rw [setMappingFile_ok hok]
  exact h.updateOrder (fun _ => rfl) fun _ => ⟨rfl, rfl, rfl⟩

theorem Balanced.submit (h : s.Balanced) {id : String} {pending : List String}
    (hok : Store.submit id s = .ok (pending, s')) : s'.Balanced := by
  obtain ⟨o, -, -, -, -, rfl⟩ := submit_ok hok
  exact h.updateOrder (fun _ => rfl) fun _ => ⟨rfl, rfl, rfl⟩

theorem Balanced.moveOrder (h : s.Balanced) {id : String} {source target : OrderStatus}
    {moved : Bool} (hok : Store.moveOrder id source target s = .ok (moved, s')) :
    s'.Balanced := by
  obtain ⟨-, ⟨-, o, -, -, rfl⟩ | ⟨-, rfl⟩⟩ := moveOrder_ok hok
  · exact h.updateOrder (fun _ => rfl) fun _ => ⟨rfl, rfl, rfl⟩
  · exact h

theorem Balanced.rollUp (h : s.Balanced) {snapshot : Order} {target : OrderStatus} {moved : Bool}
    (hok : Store.rollUp snapshot target s = .ok (moved, s')) : s'.Balanced := by
  obtain ⟨-, -, ⟨-, o, -, -, rfl⟩ | ⟨-, rfl⟩⟩ := rollUp_ok hok
  · exact h.updateOrder (fun _ => rfl) fun _ => ⟨rfl, rfl, rfl⟩
  · exact h

/-! Changes to an item. -/

/-- A change that keeps who an item is, where it is and what it tries again. -/
def KeepsPlace (change : Item → Item) : Prop :=
  ∀ i, (change i).id = i.id ∧ (change i).orderId = i.orderId ∧ (change i).retryOf = i.retryOf

theorem mem_updateItem {id : String} {change : Item → Item} {i : Item} :
    i ∈ (s.updateItem id change).items ↔
      ∃ before ∈ s.items, (if before.id == id then change before else before) = i := by
  simp [updateItem]

/-- What one change leaves of an item. -/
theorem updateItem_cases {id : String} {change : Item → Item} {i : Item}
    (h : i ∈ (s.updateItem id change).items) : ∃ before ∈ s.items,
      (before.id = id ∧ i = change before) ∨ (before.id ≠ id ∧ i = before) := by
  obtain ⟨before, hbefore, rfl⟩ := mem_updateItem.mp h
  refine ⟨before, hbefore, ?_⟩
  by_cases hid : before.id = id
  · exact Or.inl ⟨hid, if_pos (by simpa using hid)⟩
  · exact Or.inr ⟨hid, if_neg (by simpa using hid)⟩

theorem isRetried_updateItem {id : String} {change : Item → Item} (hkeeps : KeepsPlace change)
    (other : String) : (s.updateItem id change).isRetried other = s.isRetried other := by
  simp only [isRetried, updateItem, List.any_map, Function.comp_def]
  congr 1
  funext i
  split
  · rw [(hkeeps i).2.2]
  · rfl

/-- A change to an item changes a count as far as the item itself counts. -/
theorem countOf_updateItem (hnodup : (s.items.map (·.id)).Nodup) {change : Item → Item}
    (hkeeps : KeepsPlace change) {i : Item} (hi : i ∈ s.items) (order : String) (p : Item → Bool) :
    (s.updateItem i.id change).countOf order p + (i.orderId == order && p i).toNat =
      s.countOf order p + (i.orderId == order && p (change i)).toNat := by
  rw [countOf, updateItem, List.countP_map]
  have hoff := countP_agree_off hnodup hi
    (p := fun j => j.orderId == order && p j)
    (q := (fun j => j.orderId == order && p j) ∘ fun j => if j.id == i.id then change j else j)
    fun j _ hne => by simp [hne]
  simp only [Function.comp_apply, beq_self_eq_true, if_true, (hkeeps i).2.1] at hoff
  exact hoff

theorem Coherent.updateItem (h : s.Coherent) {id : String} {change : Item → Item}
    (hkeeps : KeepsPlace change)
    (hfailed : ∀ i ∈ s.items, i.id = id → i.status = .failed → (change i).status = .failed) :
    (s.updateItem id change).Coherent := by
  have hsame : ∀ i, (if i.id == id then change i else i).id = i.id ∧
      (if i.id == id then change i else i).orderId = i.orderId ∧
      (if i.id == id then change i else i).retryOf = i.retryOf := by
    intro i
    split
    · exact hkeeps i
    · exact ⟨rfl, rfl, rfl⟩
  refine ⟨h.orders_nodup, ?_, ?_, ?_⟩
  · have hids : (s.updateItem id change).items.map (·.id) = s.items.map (·.id) := by
      simp only [Store.updateItem, List.map_map]
      exact List.map_congr_left fun i _ => (hsame i).1
    rw [hids]
    exact h.items_nodup
  · intro i hi
    obtain ⟨before, hbefore, rfl⟩ := mem_updateItem.mp hi
    rw [(hsame before).2.1]
    exact h.placed before hbefore
  · intro i hi failed hretry
    obtain ⟨before, hbefore, rfl⟩ := mem_updateItem.mp hi
    rw [(hsame before).2.2] at hretry
    obtain ⟨j, hj, hid, horder, hstatus⟩ := h.retries before hbefore failed hretry
    refine ⟨_, mem_updateItem.mpr ⟨j, hj, rfl⟩, (hsame j).1.trans hid, ?_, ?_⟩
    · rw [(hsame j).2.1, (hsame before).2.1, horder]
    · split
      · rename_i hj'
        exact hfailed j hj (by simpa using hj') hstatus
      · exact hstatus

/-- Changes to an item that keep whether it is completed or failed keep the
balance. -/
theorem Balanced.updateItem (h : s.Balanced) {i : Item} (hi : i ∈ s.items)
    {change : Item → Item} (hkeeps : KeepsPlace change)
    (hcompleted : (change i).status = .completed ↔ i.status = .completed)
    (hfailed : (change i).status = .failed ↔ i.status = .failed) :
    (s.updateItem i.id change).Balanced := by
  have hcoherent : (s.updateItem i.id change).Coherent := by
    refine h.toCoherent.updateItem hkeeps ?_
    intro j hj hid hstatus
    rw [h.item_unique hj hi hid] at hstatus ⊢
    exact hfailed.mpr hstatus
  refine ⟨hcoherent, ?_⟩
  intro o ho
  have hexact := h.exact o ho
  have hcount := countOf_updateItem h.items_nodup hkeeps hi o.id
  refine ⟨?_, ?_, ?_⟩
  · have hsame := hcount fun j => j.status == .completed
    rw [show ((change i).status == ItemStatus.completed) = (i.status == .completed) by
      rw [Bool.eq_iff_iff]; simp [hcompleted]] at hsame
    rw [hexact.completed]
    omega
  · have hsame := hcount fun j => j.status == .failed && !s.isRetried j.id
    rw [show ((change i).status == ItemStatus.failed) = (i.status == .failed) by
      rw [Bool.eq_iff_iff]; simp [hfailed], (hkeeps i).1] at hsame
    simp only [hexact.failed, isRetried_updateItem hkeeps]
    omega
  · have hsame := hcount fun j => !s.isRetried j.id
    rw [(hkeeps i).1] at hsame
    simp only [hexact.total, isRetried_updateItem hkeeps]
    omega

theorem Balanced.attachFile (h : s.Balanced) {file : FileRef}
    (hok : Store.attachFile file s = .ok ((), s')) : s'.Balanced := by
  obtain ⟨i, -, hfound, -, -, -, -, rfl⟩ := attachFile_ok hok
  exact h.updateItem (item?_mem hfound).1 (fun i => ⟨rfl, rfl, rfl⟩) Iff.rfl Iff.rfl

theorem Balanced.begin (h : s.Balanced) {id : String} {now : Time.Timestamp}
    {started : Option Item} (hok : Store.begin id now s = .ok (started, s')) : s'.Balanced := by
  obtain ⟨i, hfound, ⟨hpending, -, rfl⟩ | ⟨-, -, rfl⟩⟩ := begin_ok hok
  · obtain ⟨hi, rfl⟩ := item?_mem hfound
    exact h.updateItem hi (fun i => ⟨rfl, rfl, rfl⟩) (by simp [hpending]) (by simp [hpending])
  · exact h

theorem countResolution_counters (status : ItemStatus) (o : Order) :
    (countResolution status o).id = o.id ∧ (countResolution status o).total = o.total ∧
      (countResolution status o).completed = o.completed + (status == .completed).toNat ∧
      (countResolution status o).failed = o.failed + (status == .failed).toNat := by
  cases status <;> simp [countResolution]

/-- Resolving an item counts it where it is now, provided the copy at hand names
the item's own order. -/
theorem Balanced.resolve (h : s.Balanced) {held : Item} {o : Order}
    (hok : resolve held s = .ok (o, s'))
    (horder : ∀ i ∈ s.items, i.id = held.id → i.orderId = held.orderId) : s'.Balanced := by
  obtain ⟨-, ⟨i, hfound, hprocessing⟩, rfl, -⟩ := resolve_ok hok
  obtain ⟨hi, hid⟩ := item?_mem hfound
  have hplace := horder i hi hid
  rw [← hid, ← hplace]
  have hkeeps : KeepsPlace (settle held) := fun i => ⟨rfl, rfl, rfl⟩
  have hcoherent : (s.updateItem i.id (settle held)).Coherent := by
    refine h.toCoherent.updateItem hkeeps ?_
    intro j hj hsame hstatus
    rw [h.item_unique hj hi hsame, hprocessing] at hstatus
    cases hstatus
  refine ⟨hcoherent.of_ids
    (updateOrder_ids fun o => (countResolution_counters held.status o).1) rfl, ?_⟩
  intro after hafter
  obtain ⟨before, hbefore, hchange⟩ := updateOrder_cases hafter
  obtain ⟨hwas, hwasFailed, hwasTotal⟩ := h.exact before hbefore
  obtain ⟨hids, htotal, hcompleted, hfailed⟩ := countResolution_counters held.status before
  have hnot : s.isRetried i.id = false := h.not_isRetried hi (by simp [hprocessing])
  have hretried : ∀ id, (s.updateItem i.id (settle held)).isRetried id = s.isRetried id :=
    isRetried_updateItem hkeeps
  have hcount := countOf_updateItem h.items_nodup hkeeps hi before.id
  have hcountCompleted := hcount fun j => j.status == .completed
  have hcountFailed := hcount fun j => j.status == .failed && !s.isRetried j.id
  have hcountTotal := hcount fun j => !s.isRetried j.id
  have hwasOpen : (i.status == .completed) = false ∧ (i.status == .failed) = false := by
    simp [hprocessing]
  simp only [settle, hwasOpen, hnot, Bool.and_false, Bool.not_false, Bool.and_true,
    Bool.toNat_false, Nat.add_zero] at hcountCompleted hcountFailed hcountTotal
  have hexact : ∀ o : Order, o.id = before.id →
      o.total = before.total →
      o.completed = before.completed +
        (i.orderId == before.id && held.status == .completed).toNat →
      o.failed = before.failed + (i.orderId == before.id && held.status == .failed).toNat →
      (s.updateItem i.id (settle held)).Exact o := by
    intro o hid htotal hcompleted hfailed
    refine ⟨?_, ?_, ?_⟩
    · rw [hcompleted, hid, hwas]
      exact hcountCompleted.symm
    · simp only [hfailed, hid, hwasFailed, hretried]
      exact hcountFailed.symm
    · simp only [htotal, hid, hwasTotal, hretried]
      omega
  have hthere : (s.updateItem i.id (settle held)).Exact after := by
    rcases hchange with ⟨heq, rfl⟩ | ⟨hne, rfl⟩
    · exact hexact _ hids htotal (by simp [hcompleted, heq]) (by simp [hfailed, heq])
    · exact hexact _ rfl rfl (by simp [Ne.symm hne]) (by simp [Ne.symm hne])
  exact hthere.of_items rfl rfl ⟨rfl, rfl, rfl⟩

/-! New items. -/

section Insertion

variable {item : Item}

theorem isRetried_insert (hitems : s'.items = s.items ++ [item]) (id : String) :
    s'.isRetried id = (s.isRetried id || item.retryOf == some id) := by
  simp [isRetried, hitems]

theorem countOf_insert (hitems : s'.items = s.items ++ [item]) (order : String)
    (p : Item → Bool) :
    s'.countOf order p = s.countOf order p + (item.orderId == order && p item).toNat := by
  rw [countOf, countOf, hitems, List.countP_append, List.countP_singleton]
  cases item.orderId == order && p item <;> rfl

/-- An id that no item has is not tried again either. -/
theorem Coherent.not_isRetried_new (h : s.Coherent) {id : String} (hnew : s.item? id = none) :
    s.isRetried id = false := by
  rw [Bool.eq_false_iff, Ne, isRetried_iff]
  rintro ⟨next, hnext, hretry⟩
  obtain ⟨j, hj, hid, -, -⟩ := h.retries next hnext id hretry
  exact item?_eq_none.mp hnew j hj hid

/-- An item that tries no other again adds to the items that are not tried
again. -/
theorem countOf_insert_first (h : s.Coherent) (hitems : s'.items = s.items ++ [item])
    (hnew : s.item? item.id = none) (hfirst : item.retryOf = none) (order : String)
    (p : Item → Bool) :
    s'.countOf order (fun i => p i && !s'.isRetried i.id) =
      s.countOf order (fun i => p i && !s.isRetried i.id) +
        (item.orderId == order && p item).toNat := by
  have hsame : ∀ id, s'.isRetried id = s.isRetried id := by
    intro id
    rw [isRetried_insert hitems, hfirst]
    simp
  simp only [hsame, countOf_insert hitems, h.not_isRetried_new hnew, Bool.not_false, Bool.and_true]

/-- A retry takes the place of the item that it tries again. -/
theorem countOf_insert_retry (h : s.Coherent) (hitems : s'.items = s.items ++ [item])
    (hnew : s.item? item.id = none) {failed : Item} (hfailed : failed ∈ s.items)
    (hretry : item.retryOf = some failed.id) (hfree : s.isRetried failed.id = false)
    (order : String) (p : Item → Bool) :
    s'.countOf order (fun i => p i && !s'.isRetried i.id) +
        (failed.orderId == order && p failed).toNat =
      s.countOf order (fun i => p i && !s.isRetried i.id) +
        (item.orderId == order && p item).toNat := by
  have hne : failed.id ≠ item.id := item?_eq_none.mp hnew failed hfailed
  have hoff := countP_agree_off h.items_nodup hfailed
    (p := fun i => i.orderId == order && (p i && !s.isRetried i.id))
    (q := fun i => i.orderId == order && (p i && !s'.isRetried i.id))
    (by
      intro other _ hother
      have hbeq : (failed.id == other.id) = false := by simpa using Ne.symm hother
      simp [isRetried_insert hitems, hretry, hbeq])
  have hitem : s'.isRetried item.id = false := by
    simp [isRetried_insert hitems, hretry, h.not_isRetried_new hnew, hne]
  have hnow : s'.isRetried failed.id = true := by
    simp [isRetried_insert hitems, hretry]
  rw [countOf_insert hitems, hitem]
  simp only [hfree, hnow, Bool.not_true, Bool.and_false, Bool.not_false, Bool.and_true,
    Bool.toNat_false, Nat.add_zero] at hoff ⊢
  rw [countOf, countOf]
  omega

theorem Coherent.insert (h : s.Coherent) (hitems : s'.items = s.items ++ [item])
    (horders : s'.orders.map (·.id) = s.orders.map (·.id)) (hnew : s.item? item.id = none)
    (hplaced : item.orderId ∈ s.orders.map (·.id))
    (hretry : ∀ failed, item.retryOf = some failed →
      ∃ j ∈ s.items, j.id = failed ∧ j.orderId = item.orderId ∧ j.status = .failed) :
    s'.Coherent := by
  refine ⟨horders ▸ h.orders_nodup, ?_, ?_, ?_⟩
  · rw [hitems]
    exact nodup_map_concat h.items_nodup (item?_eq_none.mp hnew)
  · intro i hi
    rw [hitems, List.mem_append, List.mem_singleton] at hi
    rw [horders]
    rcases hi with hold | rfl
    · exact h.placed i hold
    · exact hplaced
  · intro i hi failed hfailed
    rw [hitems, List.mem_append, List.mem_singleton] at hi
    have hthere : ∃ j ∈ s.items, j.id = failed ∧ j.orderId = i.orderId ∧ j.status = .failed := by
      rcases hi with hold | rfl
      · exact h.retries i hold failed hfailed
      · exact hretry failed hfailed
    obtain ⟨j, hj, hrest⟩ := hthere
    exact ⟨j, hitems ▸ List.mem_append_left _ hj, hrest⟩

end Insertion

/-- Adding an item that tries no other again keeps the balance. -/
theorem Balanced.addItem (h : s.Balanced) {item : Item} (hok : addItem item s = .ok ((), s'))
    (hfirst : item.retryOf = none) : s'.Balanced := by
  obtain ⟨o, ho, -, hpending, hadmits, rfl⟩ := addItem_ok hok
  obtain ⟨homem, hoid⟩ := order?_mem ho
  let inserted : Store := { s with items := s.items ++ [item] }
  have hitems : inserted.items = s.items ++ [item] := rfl
  refine ⟨(h.toCoherent.insert hitems rfl hadmits.new (hoid ▸ List.mem_map_of_mem homem) (by
    simp [hfirst])).of_ids (updateOrder_ids fun o => rfl) rfl, ?_⟩
  intro after hafter
  obtain ⟨before, hbefore, hchange⟩ := updateOrder_cases hafter
  obtain ⟨hcompleted, hfailed, htotal⟩ := h.exact before hbefore
  have hcount := countOf_insert_first h.toCoherent hitems hadmits.new hfirst before.id
  have hcountFailed := hcount fun i => i.status == .failed
  have hcountTotal := hcount fun _ => true
  have hwasOpen : (item.status == .completed) = false ∧ (item.status == .failed) = false := by
    simp [hpending]
  simp only [hwasOpen, Bool.and_false, Bool.true_and, Bool.and_true, Bool.toNat_false,
    Nat.add_zero] at hcountFailed hcountTotal
  have hexact : ∀ o : Order, o.id = before.id →
      o.total = before.total + (item.orderId == before.id).toNat →
      o.completed = before.completed → o.failed = before.failed → inserted.Exact o := by
    intro o hid ht hc hf
    refine ⟨?_, ?_, ?_⟩
    · simp only [hc, hid, hcompleted, countOf_insert hitems, hwasOpen, Bool.and_false,
        Bool.toNat_false, Nat.add_zero]
    · rw [hf, hid, hfailed, hcountFailed]
    · rw [ht, hid, htotal, hcountTotal]
  have hthere : inserted.Exact after := by
    rcases hchange with ⟨heq, rfl⟩ | ⟨hne, rfl⟩
    · exact hexact _ rfl (by simp [heq]) rfl rfl
    · exact hexact _ rfl (by simp [Ne.symm hne]) rfl rfl
  exact hthere.of_items rfl rfl ⟨rfl, rfl, rfl⟩

/-! Retries. -/

section Retrying

variable {next : Item} {o : Order}

def afterRetry (next : Item) (before : Order) : Order :=
  if before.id == next.orderId then reopen before else before

theorem afterRetry_id (next : Item) (before : Order) :
    (afterRetry next before).id = before.id := by
  unfold afterRetry
  split <;> rfl

/-- The failed item of an accepted retry, in the order of the retry. -/
theorem retried_of_retry (hok : retry next s = .ok (o, s'))
    (hplace : ∀ i ∈ s.items, next.retryOf = some i.id → i.orderId = next.orderId) :
    ∃ failed ∈ s.items, next.retryOf = some failed.id ∧ failed.orderId = next.orderId ∧
      failed.status = .failed ∧ s.isRetried failed.id = false ∧ s.item? next.id = none ∧
      (∃ before ∈ s.orders, before.id = next.orderId) ∧
      s'.items = s.items ++ [next] ∧ s'.orders = s.orders.map (afterRetry next) := by
  obtain ⟨failedId, failed, before, hretry, hfound, hstatus, hfree, hbefore, -, hadmits, rfl, -⟩ :=
    retry_ok hok
  obtain ⟨hfailed, rfl⟩ := item?_mem hfound
  have horder := hplace failed hfailed hretry
  rw [horder] at hbefore ⊢
  exact ⟨failed, hfailed, hretry, horder, hstatus, hfree, hadmits.new,
    ⟨before, order?_mem hbefore⟩, rfl, rfl⟩

/-- After a retry the counters are exact but for the retry itself, should it be
final already. -/
theorem Balanced.retry_counts (h : s.Balanced) (hok : retry next s = .ok (o, s'))
    (hplace : ∀ i ∈ s.items, next.retryOf = some i.id → i.orderId = next.orderId)
    {before : Order} (hbefore : before ∈ s.orders) :
    s'.countOf before.id (fun i => i.status == .completed) = (afterRetry next before).completed +
        (next.orderId == before.id && next.status == .completed).toNat ∧
      s'.countOf before.id (fun i => i.status == .failed && !s'.isRetried i.id) =
        (afterRetry next before).failed +
          (next.orderId == before.id && next.status == .failed).toNat ∧
      s'.countOf before.id (fun i => !s'.isRetried i.id) = (afterRetry next before).total := by
  obtain ⟨failed, hfailed, hretry, horder, hstatus, hfree, hnew, -, hitems, -⟩ :=
    retried_of_retry hok hplace
  obtain ⟨hwas, hwasFailed, hwasTotal⟩ := h.exact before hbefore
  have hcount := countOf_insert_retry h.toCoherent hitems hnew hfailed hretry hfree before.id
  have hcountFailed := hcount fun i => i.status == .failed
  have hcountTotal := hcount fun _ => true
  simp only [horder, hstatus, beq_self_eq_true, Bool.true_and, Bool.and_true]
    at hcountFailed hcountTotal
  have hafter : (afterRetry next before).completed = before.completed ∧
      (afterRetry next before).total = before.total ∧
      (afterRetry next before).failed =
        before.failed - (next.orderId == before.id).toNat := by
    unfold afterRetry
    by_cases heq : before.id = next.orderId
    · simp [heq, reopen, releaseFailed]
    · have hbeq : (next.orderId == before.id) = false := by simpa using Ne.symm heq
      simp [heq, hbeq]
  obtain ⟨hcompleted, htotal, hreleased⟩ := hafter
  refine ⟨?_, ?_, ?_⟩
  · rw [countOf_insert hitems, hcompleted, hwas]
  · rw [hreleased, hwasFailed]
    by_cases heq : next.orderId = before.id
    · -- the failed item itself is among those counted
      have hpos := h.failed_pos hbefore hfailed (horder.trans heq) hstatus hfree
      rw [hwasFailed] at hpos
      simp only [heq, beq_self_eq_true, Bool.toNat_true, Bool.true_and] at hcountFailed ⊢
      omega
    · simp only [beq_eq_false_iff_ne.mpr heq, Bool.toNat_false, Bool.false_and] at hcountFailed ⊢
      omega
  · rw [htotal, hwasTotal]
    omega

/-- A retry that is not final yet keeps the balance. -/
theorem Balanced.retry (h : s.Balanced) (hok : retry next s = .ok (o, s'))
    (hplace : ∀ i ∈ s.items, next.retryOf = some i.id → i.orderId = next.orderId)
    (hopen : next.status.isFinal = false) : s'.Balanced := by
  obtain ⟨failed, hfailed, hretry, horder, hstatus, -, hnew, ⟨before, hbefore, hid⟩, hitems,
    horders⟩ := retried_of_retry hok hplace
  have hids : s'.orders.map (·.id) = s.orders.map (·.id) := by
    rw [horders, List.map_map]
    exact List.map_congr_left fun o _ => afterRetry_id next o
  refine ⟨h.toCoherent.insert hitems hids hnew (hid ▸ List.mem_map_of_mem hbefore) ?_, ?_⟩
  · intro failedId hsome
    rw [hretry, Option.some.injEq] at hsome
    exact ⟨failed, hfailed, hsome, horder, hstatus⟩
  · intro after hafter
    rw [horders] at hafter
    obtain ⟨before, hbefore, rfl⟩ := List.mem_map.mp hafter
    obtain ⟨hcompleted, hfailed, htotal⟩ := h.retry_counts hok hplace hbefore
    have hneither : (next.status == .completed) = false ∧ (next.status == .failed) = false := by
      cases hcase : next.status <;> simp_all [ItemStatus.isFinal]
    simp only [hneither, Bool.and_false, Bool.toNat_false, Nat.add_zero] at hcompleted hfailed
    refine ⟨?_, ?_, ?_⟩
    · rw [afterRetry_id, hcompleted]
    · rw [afterRetry_id, hfailed]
    · rw [afterRetry_id, htotal]

/-- A retry that is final already is in no counter. -/
theorem Balanced.not_exact_of_final_retry (h : s.Balanced) (hok : Store.retry next s = .ok (o, s'))
    (hplace : ∀ i ∈ s.items, next.retryOf = some i.id → i.orderId = next.orderId)
    (hfinal : next.status.isFinal = true) : ∃ after ∈ s'.orders, ¬ s'.Exact after := by
  obtain ⟨-, -, -, -, -, -, -, ⟨before, hbefore, hid⟩, -, horders⟩ :=
    retried_of_retry hok hplace
  refine ⟨afterRetry next before, horders ▸ List.mem_map_of_mem hbefore, ?_⟩
  rintro ⟨hcompleted, hfailed, -⟩
  obtain ⟨hcompleted', hfailed', -⟩ := h.retry_counts hok hplace hbefore
  rw [afterRetry_id] at hcompleted hfailed
  rw [← hcompleted] at hcompleted'
  rw [← hfailed] at hfailed'
  cases hcase : next.status with
  | pending => simp [hcase, ItemStatus.isFinal] at hfinal
  | processing => simp [hcase, ItemStatus.isFinal] at hfinal
  | completed => simp [hcase, hid] at hcompleted'
  | failed => simp [hcase, hid] at hfailed'

end Retrying

/-- An item that tries another again and is added is counted twice over. -/
theorem Balanced.not_exact_of_retry_added (h : s.Balanced) {item : Item}
    (hok : Store.addItem item s = .ok ((), s'))
    (hplace : ∀ i ∈ s.items, item.retryOf = some i.id → i.orderId = item.orderId)
    (hother : item.retryOf ≠ some item.id) (hretry : item.retryOf ≠ none) :
    ∃ after ∈ s'.orders, ¬ s'.Exact after := by
  obtain ⟨o, ho, -, -, hadmits, rfl⟩ := addItem_ok hok
  obtain ⟨homem, hoid⟩ := order?_mem ho
  obtain ⟨failedId, hsome⟩ := Option.ne_none_iff_exists'.mp hretry
  obtain ⟨failed, hfound⟩ := hadmits.known failedId hsome fun heq => hother (heq ▸ hsome)
  obtain ⟨hfailed, rfl⟩ := item?_mem hfound
  have hfree : s.isRetried failed.id = false := by
    rw [Bool.eq_false_iff, Ne, isRetried_iff]
    rintro ⟨i, hi, htried⟩
    exact hadmits.untried i hi (by simp [hsome]) (htried.trans hsome.symm)
  let inserted : Store := { s with items := s.items ++ [item] }
  have hcount :=
    countOf_insert_retry h.toCoherent (rfl : inserted.items = _) hadmits.new hfailed hsome
    hfree o.id fun _ => true
  simp only [hplace failed hfailed hsome, Bool.true_and, Bool.and_true] at hcount
  refine ⟨{ o with total := o.total + 1 },
    mem_updateOrder.mpr ⟨o, homem, by rw [if_pos (by simp [hoid])]⟩, ?_⟩
  rintro ⟨-, -, htotal⟩
  change o.total + 1 = inserted.countOf o.id fun i => !inserted.isRetried i.id at htotal
  have hwas := (h.exact o homem).total
  omega

end Collate.Store
