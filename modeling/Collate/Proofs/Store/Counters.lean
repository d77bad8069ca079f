import Collate.Proofs.Store.Steps
import Mathlib.Data.List.Nodup

/-!
The counters of an order and the items they count. Nothing stored ties the two
together: operations count up and down as items change. `Exact` says what the
counters of an order have to be, `Balanced` adds what an operation needs to find
so that it leaves them so: ids are not repeated, items are in orders, and an
item that is tried again has failed in the same order.
-/

namespace Collate

section Counting

variable {α : Type} {l : List α}

/-- One more element with a new key keeps the keys apart. -/
theorem nodup_map_concat {β : Type} {key : α → β} (h : (l.map key).Nodup) {a : α}
    (hnew : ∀ b ∈ l, key b ≠ key a) : ((l ++ [a]).map key).Nodup := by
  rw [List.map_append, List.map_singleton, List.nodup_append]
  refine ⟨h, List.nodup_singleton _, ?_⟩
  rintro x hx y hy rfl
  obtain ⟨b, hb, heq⟩ := List.mem_map.mp hx
  exact hnew b hb (heq.trans (List.mem_singleton.mp hy))

/-- Counts of three conditions add up to that of a fourth that each element
satisfies as often. -/
theorem countP_split {p q r w : α → Bool}
    (h : ∀ a ∈ l, (r a).toNat = (p a).toNat + (q a).toNat + (w a).toNat) :
    l.countP r = l.countP p + l.countP q + l.countP w := by
  induction l with
  | nil => rfl
  | cons a rest ih =>
    have hhead := h a (by simp)
    have htail := ih fun b hb => h b (by simp [hb])
    have hcons : ∀ f : α → Bool, (a :: rest).countP f = rest.countP f + (f a).toNat := by
      intro f
      rw [List.countP_cons]
      cases f a <;> rfl
    rw [hcons p, hcons q, hcons r, hcons w]
    omega

/-- Two conditions that agree but for one element differ in count as they do on
it. -/
theorem countP_agree_off {β : Type} {key : α → β} (hnodup : (l.map key).Nodup) {a : α}
    (ha : a ∈ l) {p q : α → Bool} (h : ∀ b ∈ l, key b ≠ key a → q b = p b) :
    l.countP q + (p a).toNat = l.countP p + (q a).toNat := by
  induction l with
  | nil => simp at ha
  | cons first rest ih =>
    simp only [List.map_cons, List.nodup_cons] at hnodup
    have hcons : ∀ f : α → Bool, (first :: rest).countP f = rest.countP f + (f first).toNat := by
      intro f
      rw [List.countP_cons]
      cases f first <;> rfl
    rw [hcons p, hcons q]
    rcases List.mem_cons.mp ha with rfl | hrest
    · have hsame : rest.countP q = rest.countP p := by
        apply List.countP_congr
        intro b hb
        have hne : key b ≠ key a := fun heq => hnodup.1 (heq ▸ List.mem_map_of_mem hb)
        rw [h b (by simp [hb]) hne]
      omega
    · have hne : key first ≠ key a := fun heq => hnodup.1 (heq ▸ List.mem_map_of_mem hrest)
      have hfirst := h first (by simp) hne
      have htail := ih hnodup.2 hrest fun b hb => h b (by simp [hb])
      rw [hfirst]
      omega

end Counting

namespace Store

def countOf (s : Store) (order : String) (p : Item → Bool) : Nat :=
  s.items.countP fun i => i.orderId == order && p i

/-- The counters of an order are the numbers of its completed items, of its
failed items that no other item tries again, and of all its items that no other
item tries again. -/
structure Exact (s : Store) (o : Order) : Prop where
  completed : o.completed = s.countOf o.id fun i => i.status == .completed
  failed : o.failed = s.countOf o.id fun i => i.status == .failed && !s.isRetried i.id
  total : o.total = s.countOf o.id fun i => !s.isRetried i.id

/-- Ids are not repeated, items are in orders, and an item that is tried again
has failed in the order of its retry. -/
structure Coherent (s : Store) : Prop where
  orders_nodup : (s.orders.map (·.id)).Nodup
  items_nodup : (s.items.map (·.id)).Nodup
  placed : ∀ i ∈ s.items, i.orderId ∈ s.orders.map (·.id)
  retries : ∀ i ∈ s.items, ∀ failed, i.retryOf = some failed →
    ∃ j ∈ s.items, j.id = failed ∧ j.orderId = i.orderId ∧ j.status = .failed

/-- A coherent store in which all counters are exact. -/
structure Balanced (s : Store) : Prop extends Coherent s where
  exact : ∀ o ∈ s.orders, s.Exact o

variable {s s' : Store}

theorem empty_balanced : Store.empty.Balanced := by
  refine ⟨⟨List.nodup_nil, List.nodup_nil, ?_, ?_⟩, ?_⟩
  · simp [Store.empty]
  · simp [Store.empty]
  · simp [Store.empty]

theorem Coherent.item_unique (h : s.Coherent) {i j : Item} (hi : i ∈ s.items)
    (hj : j ∈ s.items) (hid : i.id = j.id) : i = j :=
  List.inj_on_of_nodup_map h.items_nodup hi hj hid

theorem Coherent.order_unique (h : s.Coherent) {o p : Order} (ho : o ∈ s.orders)
    (hp : p ∈ s.orders) (hid : o.id = p.id) : o = p :=
  List.inj_on_of_nodup_map h.orders_nodup ho hp hid

/-- An order is what its id gives. -/
theorem Coherent.order?_of_mem (h : s.Coherent) {o : Order} (ho : o ∈ s.orders) :
    s.order? o.id = some o := by
  cases hfound : s.order? o.id with
  | none => exact absurd rfl (order?_eq_none.mp hfound o ho)
  | some other =>
    obtain ⟨hother, hid⟩ := order?_mem hfound
    rw [h.order_unique hother ho hid]

/-- An item is what its id gives. -/
theorem item?_of_nodup (hnodup : (s.items.map (·.id)).Nodup) {i : Item} (hi : i ∈ s.items) :
    s.item? i.id = some i := by
  cases hfound : s.item? i.id with
  | none => exact absurd rfl (item?_eq_none.mp hfound i hi)
  | some other =>
    obtain ⟨hother, hid⟩ := item?_mem hfound
    rw [List.inj_on_of_nodup_map hnodup hother hi hid]

theorem Coherent.item?_of_mem (h : s.Coherent) {i : Item} (hi : i ∈ s.items) :
    s.item? i.id = some i :=
  item?_of_nodup h.items_nodup hi

/-- Only failed items are tried again. -/
theorem Coherent.not_isRetried (h : s.Coherent) {i : Item} (hi : i ∈ s.items)
    (hstatus : i.status ≠ .failed) : s.isRetried i.id = false := by
  rw [Bool.eq_false_iff, Ne, isRetried_iff]
  rintro ⟨next, hnext, hretry⟩
  obtain ⟨j, hj, hid, -, hfailed⟩ := h.retries next hnext i.id hretry
  rw [h.item_unique hj hi hid] at hfailed
  exact hstatus hfailed

/-- Every item that is not tried again is completed, failed or open. -/
theorem Balanced.total_eq (h : s.Balanced) {o : Order} (ho : o ∈ s.orders) :
    o.total = o.completed + o.failed + s.countOf o.id fun i => !i.status.isFinal := by
  obtain ⟨hcompleted, hfailed, htotal⟩ := h.exact o ho
  rw [hcompleted, hfailed, htotal]
  apply countP_split
  intro i hi
  cases horder : i.orderId == o.id with
  | false => simp
  | true =>
    by_cases hstatus : i.status = .failed
    · simp [hstatus, ItemStatus.isFinal]
    · have hnot := h.not_isRetried hi hstatus
      cases hcase : i.status with
      | failed => exact absurd hcase hstatus
      | pending => simp [hnot, hcase, ItemStatus.isFinal]
      | processing => simp [hnot, hcase, ItemStatus.isFinal]
      | completed => simp [hnot, hcase, ItemStatus.isFinal]

theorem Balanced.resolved_le (h : s.Balanced) {o : Order} (ho : o ∈ s.orders) :
    o.completed + o.failed ≤ o.total := by
  have htotal := h.total_eq ho
  omega

/-- A failed item that is not tried again takes up a slot of its order. -/
theorem Balanced.failed_pos (h : s.Balanced) {o : Order} (ho : o ∈ s.orders) {i : Item}
    (hi : i ∈ s.items) (horder : i.orderId = o.id) (hfailed : i.status = .failed)
    (hretry : s.isRetried i.id = false) : 0 < o.failed := by
  rw [(h.exact o ho).failed, countOf, List.countP_pos_iff]
  exact ⟨i, hi, by simp [horder, hfailed, hretry]⟩

end Store

end Collate
