import Collate.Proofs.Service.Settling
import Collate.Proofs.Store.Slots
import Mathlib.Data.List.Perm.Subperm

/-!
Roll-ups that are decided on from looks at different times. Between the look at
the order, the look at its items and the roll-up itself anything may happen; the
roll-up only compares counters. These may well have changed and come back, as
when a retry fails again. Completed items, however, stay, so that as many of
them are the same ones.
-/

namespace Collate.Store

variable {s s' t : Store} {o now : Order}

def completedOf (s : Store) (order : String) : List Item :=
  s.items.filter fun i => i.orderId == order && i.status == .completed

theorem mem_completedOf {order : String} {i : Item} :
    i ∈ s.completedOf order ↔ i ∈ s.items ∧ i.orderId = order ∧ i.status = .completed := by
  simp [completedOf]

theorem length_completedOf (s : Store) (order : String) :
    (s.completedOf order).length = s.countOf order fun i => i.status == .completed :=
  List.countP_eq_length_filter.symm

theorem Keyed.completedOf_nodup (h : s.Keyed) (order : String) : (s.completedOf order).Nodup :=
  (List.Nodup.of_map _ h.items_nodup).filter _

theorem Frozen.completedOf_subset (h : s.Frozen s') (order : String) :
    s.completedOf order ⊆ s'.completedOf order := by
  intro i hi
  obtain ⟨hmem, horder, hstatus⟩ := mem_completedOf.mp hi
  exact mem_completedOf.mpr ⟨h.items i hmem (by rw [hstatus]; rfl), horder, hstatus⟩

/-- If an order has no more completed items than before, it has the same ones. -/
theorem Frozen.completedOf_perm (h : s.Frozen s') (hs : s.Keyed) (order : String)
    (hle : (s'.completedOf order).length ≤ (s.completedOf order).length) :
    (s.completedOf order).Perm (s'.completedOf order) :=
  (List.subperm_of_subset (hs.completedOf_nodup order)
    (h.completedOf_subset order)).perm_of_length_le hle

theorem any_completed_congr {items items' : List Item}
    (hsame : ∀ i : Item, i.status = .completed → (i ∈ items' ↔ i ∈ items)) (p : Item → Bool) :
    (items'.filter (·.status == .completed)).any p =
      (items.filter (·.status == .completed)).any p := by
  rw [Bool.eq_iff_iff, List.any_eq_true, List.any_eq_true]
  refine exists_congr fun i => and_congr_left fun _ => ?_
  simp only [List.mem_filter, beq_iff_eq]
  exact and_congr_left fun hcompleted => hsame i hcompleted

theorem standsAs_iff {order snapshot : Order} : standsAs order snapshot = true ↔
    order.status = .processing ∧ (order.total = snapshot.total ∧
      order.completed = snapshot.completed ∧ order.failed = snapshot.failed) ∧
      order.completed + order.failed = order.total := by
  simp [standsAs, and_assoc]

/-- A roll-up that was decided on from an order read at one time and items listed
at another, and that takes place at a third, moves the order where it would go
if it were decided on now. No item of the order is open then. -/
theorem Run.rollUp_current {b₀ b₁ b₂ : Bench} {past : List (Store × Call)} (h : Run b₀ past)
    (h₁ : b₀.LeadsTo b₁) (h₂ : b₁.LeadsTo b₂) (ho : b₀.store.order? o.id = some o)
    (hprocessing : o.status = .processing) (hresolved : o.allResolved = true)
    (htemplates : b₂.store.templates = b₁.store.templates)
    (hbindings : b₂.store.bindings = b₁.store.bindings) {target : OrderStatus}
    (htarget : (b₁.store.rollupFacts o (b₁.store.itemsOf o.id)).target? = some target)
    (hok : rollUp o target b₂.store = .ok (true, s')) :
    ∃ now, b₂.store.order? o.id = some now ∧
      (b₂.store.rollupFacts now (b₂.store.itemsOf o.id)).target? = some target ∧
      ∀ i ∈ b₂.store.itemsOf o.id, i.status.isFinal = true := by
  obtain ⟨⟨past₁, hrun₁⟩, hfrozen₁⟩ := h.leadsTo h₁
  obtain ⟨⟨past₂, hrun₂⟩, hfrozen₂⟩ := hrun₁.leadsTo h₂
  obtain ⟨-, -, ⟨-, now, hnow, hstands, -⟩ | ⟨hnot, -⟩⟩ := rollUp_ok hok
  · obtain ⟨homem, -⟩ := order?_mem ho
    obtain ⟨hnmem, hnid⟩ := order?_mem hnow
    obtain ⟨-, hcounters, hnresolved⟩ := standsAs_iff.mp hstands
    -- the order was resolved when it was read, and it is now
    simp only [Order.allResolved, Order.resolved, Bool.and_eq_true, beq_iff_eq] at hresolved
    obtain ⟨-, hthen⟩ := (h.roomy.bounded o homem).of_resolved hresolved.2
    obtain ⟨hfinal, hlast⟩ := (hrun₂.roomy.bounded now hnmem).of_resolved hnresolved
    rw [hnid] at hfinal hlast
    -- as many items are completed as then, and those that were still are
    have hcount : (b₂.store.completedOf o.id).length ≤ (b₀.store.completedOf o.id).length := by
      rw [length_completedOf, length_completedOf, ← hthen, ← hlast]
      exact Nat.le_of_eq hcounters.2.1
    have hperm := (hfrozen₁.trans hfrozen₂).completedOf_perm h.roomy.toKeyed o.id hcount
    have hsame : ∀ i : Item, i.status = .completed →
        (i ∈ b₂.store.itemsOf o.id ↔ i ∈ b₁.store.itemsOf o.id) := by
      intro i hcompleted
      rw [mem_itemsOf, mem_itemsOf]
      constructor
      · rintro ⟨hi, horder⟩
        have hwas := hperm.mem_iff.mpr (mem_completedOf.mpr ⟨hi, horder, hcompleted⟩)
        obtain ⟨hi₁, -, -⟩ := mem_completedOf.mp (hfrozen₁.completedOf_subset o.id hwas)
        exact ⟨hi₁, horder⟩
      · rintro ⟨hi, horder⟩
        exact ⟨hfrozen₂.items i hi (by rw [hcompleted]; rfl), horder⟩
    have hkeys : now.mappingKeys = o.mappingKeys := by
      obtain ⟨o', ho', hid, -, hkeys⟩ :=
        (hfrozen₁.trans hfrozen₂).orders o homem
          (by rw [hprocessing]; exact OrderStatus.noConfusion)
      rw [hrun₂.roomy.order_unique hnmem ho' (hnid.trans hid.symm)]
      exact hkeys
    refine ⟨now, hnow, ?_, ?_⟩
    · rw [rollupFacts_congr htemplates hbindings hkeys hcounters fun p =>
        any_completed_congr hsame _]
      exact htarget
    · intro i hi
      obtain ⟨hmem, horder⟩ := mem_itemsOf.mp hi
      exact hfinal i hmem horder
  · cases hnot

/-! An order whose item fails, and whose retry fails too. -/

private def pendingScan : Item := Item.create "i" "o" "acme" "invoice" "scan" ⟨0, 0⟩

private def startedScan : Item :=
  { pendingScan with status := .processing, startedAt := some ⟨1, 0⟩ }

private def failedScan : Item :=
  { startedScan with status := .failed, endedAt := some ⟨2, 0⟩, error := some "blank" }

private def pendingRetry : Item :=
  { Item.create "j" "o" "acme" "invoice" "scan" ⟨3, 0⟩ with retryOf := some "i" }

private def startedRetry : Item :=
  { pendingRetry with status := .processing, startedAt := some ⟨4, 0⟩ }

private def failedRetry : Item :=
  { startedRetry with status := .failed, endedAt := some ⟨5, 0⟩, error := some "torn" }

private def failingOrder : Order :=
  { Order.create "o" none with status := .processing, total := 1, failed := 1 }

private def benchRead : Bench where
  store := { Store.empty with orders := [failingOrder], items := [failedScan] }
  held := [failedScan, startedScan, pendingScan]

/-- The order failed and is processed again. -/
private def benchListed : Bench where
  store := { Store.empty with
    orders := [{ failingOrder with failed := 0 }], items := [failedScan, pendingRetry] }
  held := pendingRetry :: benchRead.held

/-- The retry has failed as well, so that the counters are what they were. -/
private def benchRolled : Bench where
  store := { Store.empty with orders := [failingOrder], items := [failedScan, failedRetry] }
  held := [failedRetry, startedRetry] ++ benchListed.held

private theorem run_benchRead : ∃ past, Run benchRead past := by
  have hstart : pendingScan.start ⟨1, 0⟩ = .ok startedScan := rfl
  have hfail : startedScan.fail "blank" ⟨2, 0⟩ = .ok failedScan := rfl
  have h := Run.start
  have h := h.call (.createOrder "o" none) (by simp [Call.handed?])
  have h := h.make (.create "i" "o" "acme" "invoice" "scan" ⟨0, 0⟩ (by simp))
  have h := h.call (.addItem pendingScan) (by simp [Call.handed?, pendingScan])
  have h := h.call (.submit "o") (by simp [Call.handed?])
  have h := h.call (.begin "i" ⟨1, 0⟩) (by simp [Call.handed?])
  have h := h.make (.start (by simp [pendingScan]) hstart)
  have h := h.make (.fail (by simp) hfail)
  have h := h.call (.resolve failedScan) (by simp [Call.handed?])
  exact ⟨_, h⟩

private theorem benchRead_leadsTo : benchRead.LeadsTo benchListed := by
  have hretry : failedScan.retryFrom (fun _ => "j") ⟨3, 0⟩ = .ok pendingRetry := rfl
  have h := Relation.ReflTransGen.refl (a := benchRead) (r := Bench.Step)
  have h := h.tail (.call (.rollUp failingOrder .failed) (by simp [Call.handed?]))
  have h := h.tail (.make (.retryFrom (h := by simp [benchRead])
    (by simp [benchRead, failedScan, startedScan, pendingScan, Item.create]) hretry))
  exact h.tail (.call (.retry pendingRetry) (by simp [Call.handed?]))

private theorem benchListed_leadsTo : benchListed.LeadsTo benchRolled := by
  have hstart : pendingRetry.start ⟨4, 0⟩ = .ok startedRetry := rfl
  have hfail : startedRetry.fail "torn" ⟨5, 0⟩ = .ok failedRetry := rfl
  have h := Relation.ReflTransGen.refl (a := benchListed) (r := Bench.Step)
  have h := h.tail (.call (.begin "j" ⟨4, 0⟩) (by simp [Call.handed?]))
  have h := h.tail (.make (.start (h := by simp [benchListed]) hstart))
  have h := h.tail (.make (.fail (by simp) hfail))
  exact h.tail (.call (.resolve failedRetry) (by simp [Call.handed?]))

/-- The roll-up of the order as it was read first fails it for the second
time. -/
theorem Run.rollUp_current_failed_again : ∃ b₀ b₁ b₂ past s', Run b₀ past ∧ b₀.LeadsTo b₁ ∧
    b₁.LeadsTo b₂ ∧ b₀.store.items.map (·.status) = [.failed] ∧
    b₁.store.items.map (·.status) = [.failed, .pending] ∧
    b₂.store.items.map (·.status) = [.failed, .failed] ∧
    rollUp failingOrder .failed b₂.store = .ok (true, s') ∧
    ∃ now, b₂.store.order? "o" = some now ∧
      (b₂.store.rollupFacts now (b₂.store.itemsOf "o")).target? = some .failed ∧
      ∀ i ∈ b₂.store.itemsOf "o", i.status.isFinal = true := by
  obtain ⟨past, h⟩ := run_benchRead
  have htarget : (benchListed.store.rollupFacts failingOrder
      (benchListed.store.itemsOf "o")).target? = some .failed := by
    decide +kernel
  refine ⟨_, _, _, past, _, h, benchRead_leadsTo, benchListed_leadsTo, rfl, rfl, rfl, rfl, ?_⟩
  exact h.rollUp_current benchRead_leadsTo benchListed_leadsTo rfl rfl rfl rfl rfl htarget rfl

end Collate.Store
