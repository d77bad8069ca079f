import Collate.Proofs.Store.Balance

/-!
The status of an order and its items. `Settled` says what each status promises
of the items and counters of an order, `Steady` is the invariant of a store
between calls of the service: balanced, every order settled, and no item in the
middle of being processed.
-/

namespace Collate.Store

variable {s s' t : Store}

/-- What the status of an order promises. -/
structure Settled (s : Store) (o : Order) : Prop where
  draft : o.status = .draft → (∀ i ∈ s.items, i.orderId = o.id → i.status = .pending) ∧
    o.completed = 0 ∧ o.failed = 0
  processing : o.status = .processing → ∃ i ∈ s.items, i.orderId = o.id ∧ i.status = .pending
  resolved : o.status = .mapping ∨ o.status = .completed ∨ o.status = .failed →
    (∀ i ∈ s.items, i.orderId = o.id → i.status.isFinal = true) ∧
      o.completed + o.failed = o.total ∧ 0 < o.total
  mapping : o.status = .mapping → ∃ i ∈ s.items, i.orderId = o.id ∧ i.status = .completed
  failed : o.status = .failed → 0 < o.failed
  completed : o.status = .completed → o.failed = 0 ∨ s.merged.contains o.id = true

/-- The invariant between calls. -/
structure Steady (s : Store) : Prop extends Balanced s where
  idle : ∀ i ∈ s.items, i.status ≠ .processing
  settled : ∀ o ∈ s.orders, s.Settled o

theorem empty_steady : Store.empty.Steady := by
  refine ⟨empty_balanced, ?_, ?_⟩
  · simp [Store.empty]
  · simp [Store.empty]

def Has (s : Store) (order : String) (status : ItemStatus) : Prop :=
  ∃ i ∈ s.items, i.orderId = order ∧ i.status = status

/-- What an order is settled by: its status and counters, the statuses of its
items and whether it was merged. -/
theorem Settled.of_same {o o' : Order} (h : s.Settled o) (hid : o'.id = o.id)
    (hstatus : o'.status = o.status)
    (hcounters : o'.total = o.total ∧ o'.completed = o.completed ∧ o'.failed = o.failed)
    (hhas : ∀ status, s'.Has o.id status ↔ s.Has o.id status)
    (hmerged : s.merged.contains o.id = true → s'.merged.contains o.id = true) :
    s'.Settled o' := by
  obtain ⟨htotal, hcompleted, hfailed⟩ := hcounters
  have hall : ∀ p : ItemStatus → Prop, (∀ i ∈ s.items, i.orderId = o.id → p i.status) →
      ∀ i ∈ s'.items, i.orderId = o.id → p i.status := by
    intro p hp i hi horder
    obtain ⟨j, hj, hjorder, hjstatus⟩ := (hhas i.status).mp ⟨i, hi, horder, rfl⟩
    exact hjstatus ▸ hp j hj hjorder
  refine ⟨?_, ?_, ?_, ?_, ?_, ?_⟩
  · intro hdraft
    obtain ⟨hitems, hcounts⟩ := h.draft (hstatus ▸ hdraft)
    rw [hid, hcompleted, hfailed]
    exact ⟨hall (· = .pending) hitems, hcounts⟩
  · intro hprocessing
    rw [hid]
    exact (hhas .pending).mpr (h.processing (hstatus ▸ hprocessing))
  · intro hresolved
    obtain ⟨hitems, hcounts⟩ := h.resolved (hstatus ▸ hresolved)
    rw [hid, hcompleted, hfailed, htotal]
    exact ⟨hall (·.isFinal = true) hitems, hcounts⟩
  · intro hmapping
    rw [hid]
    exact (hhas .completed).mpr (h.mapping (hstatus ▸ hmapping))
  · intro hfailing
    rw [hfailed]
    exact h.failed (hstatus ▸ hfailing)
  · intro hcomplete
    rw [hfailed, hid]
    exact (h.completed (hstatus ▸ hcomplete)).imp id hmerged

theorem has_of_items (hitems : s'.items = s.items) (order : String) (status : ItemStatus) :
    s'.Has order status ↔ s.Has order status := by
  rw [Has, Has, hitems]

theorem has_updateOrder (id : String) (change : Order → Order) (order : String)
    (status : ItemStatus) : (s.updateOrder id change).Has order status ↔ s.Has order status :=
  Iff.rfl

theorem has_insert {item : Item} (hitems : s'.items = s.items ++ [item]) {order : String}
    {status : ItemStatus} :
    s'.Has order status ↔ s.Has order status ∨ (item.orderId = order ∧ item.status = status) := by
  simp only [Has, hitems, List.mem_append, List.mem_singleton]
  constructor
  · rintro ⟨i, hi | rfl, horder, hstatus⟩
    · exact Or.inl ⟨i, hi, horder, hstatus⟩
    · exact Or.inr ⟨horder, hstatus⟩
  · rintro (⟨i, hi, horder, hstatus⟩ | ⟨horder, hstatus⟩)
    · exact ⟨i, Or.inl hi, horder, hstatus⟩
    · exact ⟨item, Or.inr rfl, horder, hstatus⟩

/-- A change that keeps the statuses of the items of an order. -/
theorem has_updateItem {id : String} {change : Item → Item} {order : String}
    (hsame : ∀ i ∈ s.items, i.id = id → (change i).orderId = i.orderId ∧
      (i.orderId = order → (change i).status = i.status)) (status : ItemStatus) :
    (s.updateItem id change).Has order status ↔ s.Has order status := by
  have hitem : ∀ i ∈ s.items, ((if i.id == id then change i else i).orderId = order ∧
      (if i.id == id then change i else i).status = status) ↔
      (i.orderId = order ∧ i.status = status) := by
    intro i hi
    by_cases hid : i.id = id
    · obtain ⟨horder, hstatus⟩ := hsame i hi hid
      simp only [hid, beq_self_eq_true, if_true, horder]
      constructor
      · rintro ⟨h, hnow⟩
        exact ⟨h, hstatus h ▸ hnow⟩
      · rintro ⟨h, hwas⟩
        exact ⟨h, (hstatus h).trans hwas⟩
    · simp [hid]
  constructor
  · rintro ⟨i, hi, hrest⟩
    obtain ⟨before, hbefore, rfl⟩ := mem_updateItem.mp hi
    exact ⟨before, hbefore, (hitem before hbefore).mp hrest⟩
  · rintro ⟨i, hi, hrest⟩
    exact ⟨_, mem_updateItem.mpr ⟨i, hi, rfl⟩, (hitem i hi).mpr hrest⟩

/-! What the counters say about the items. -/

theorem countOf_eq_zero_iff {order : String} {p : Item → Bool} :
    s.countOf order p = 0 ↔ ∀ i ∈ s.items, i.orderId = order → p i = false := by
  simp [countOf, List.countP_eq_zero]

theorem Balanced.resolved_iff (h : s.Balanced) {o : Order} (ho : o ∈ s.orders) :
    o.completed + o.failed = o.total ↔
      ∀ i ∈ s.items, i.orderId = o.id → i.status.isFinal = true := by
  have htotal := h.total_eq ho
  have hopen : (s.countOf o.id fun i => !i.status.isFinal) = 0 ↔
      ∀ i ∈ s.items, i.orderId = o.id → i.status.isFinal = true := by
    simp [countOf_eq_zero_iff]
  rw [← hopen]
  omega

theorem Balanced.resolved_iff_not_has (h : s.Balanced)
    (hidle : ∀ i ∈ s.items, i.status ≠ .processing) {o : Order} (ho : o ∈ s.orders) :
    o.completed + o.failed = o.total ↔ ¬ s.Has o.id .pending := by
  rw [h.resolved_iff ho]
  constructor
  · rintro hall ⟨i, hi, horder, hpending⟩
    have hfinal := hall i hi horder
    rw [hpending] at hfinal
    cases hfinal
  · intro hnone i hi horder
    cases hstatus : i.status with
    | pending => exact absurd ⟨i, hi, horder, hstatus⟩ hnone
    | processing => exact absurd hstatus (hidle i hi)
    | completed => rfl
    | failed => rfl

theorem Balanced.completed_pos (h : s.Balanced) {o : Order} (ho : o ∈ s.orders)
    (hpos : 0 < o.completed) : s.Has o.id .completed := by
  rw [(h.exact o ho).completed, countOf, List.countP_pos_iff] at hpos
  obtain ⟨i, hi, hcompleted⟩ := hpos
  simp only [Bool.and_eq_true, beq_iff_eq] at hcompleted
  exact ⟨i, hi, hcompleted⟩

end Collate.Store
