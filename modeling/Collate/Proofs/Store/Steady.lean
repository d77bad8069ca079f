import Collate.Proofs.Dict
import Collate.Proofs.Store.Settled

/-!
Which operations keep a store steady. Most leave all statuses alone. Submitting,
retrying and merging move one order on, and what they check makes the promises
of the new status true. Processing an item is three operations: between them the
order of the item is only promised to be in processing.
-/

namespace Collate

def OrderStatus.Moves (a b : OrderStatus) : Prop := b = a ∨ a.leadsTo b = true

theorem OrderStatus.Moves.ne_draft {a b : OrderStatus} (h : a.Moves b) (ha : a ≠ .draft) :
    b ≠ .draft := by
  rcases h with rfl | hleads
  · exact ha
  · rintro rfl
    cases a <;> simp [leadsTo] at hleads

/-- Where an order may go, and what its counters say then. -/
theorem RollupFacts.target?_eq_some {facts : RollupFacts} {target : OrderStatus}
    (h : facts.target? = some target) :
    0 < facts.total ∧ facts.completed + facts.failed = facts.total ∧
      ((target = .mapping ∧ 0 < facts.completed) ∨ (target = .completed ∧ facts.failed = 0) ∨
        (target = .failed ∧ 0 < facts.failed)) := by
  unfold target? at h
  split at h
  · simp at h
  · rename_i hresolved
    rw [not_or, Decidable.not_not] at hresolved
    refine ⟨by omega, hresolved.2, ?_⟩
    split at h
    · rename_i hmapping
      exact Or.inl ⟨(Option.some.inj h).symm, hmapping.1⟩
    · split at h
      · rename_i hnone
        exact Or.inr (Or.inl ⟨(Option.some.inj h).symm, hnone⟩)
      · rename_i hsome
        exact Or.inr (Or.inr ⟨(Option.some.inj h).symm, by omega⟩)

theorem RollupFacts.leadsTo_target {facts : RollupFacts} {target : OrderStatus}
    (h : facts.target? = some target) : OrderStatus.processing.leadsTo target = true := by
  obtain ⟨-, -, ⟨rfl, -⟩ | ⟨rfl, -⟩ | ⟨rfl, -⟩⟩ := target?_eq_some h
  · rfl
  · rfl
  · rfl

/-- A resolved order that is not empty goes somewhere. -/
theorem RollupFacts.exists_target {facts : RollupFacts} (hpos : 0 < facts.total)
    (hresolved : facts.completed + facts.failed = facts.total) :
    ∃ target, facts.target? = some target := by
  unfold target?
  rw [if_neg (by omega)]
  split
  · exact ⟨_, rfl⟩
  · split
    · exact ⟨_, rfl⟩
    · exact ⟨_, rfl⟩

namespace Store

variable {s s' t : Store} {R : OrderStatus → OrderStatus → Prop}

/-- Orders and items are still there, the statuses of orders being related. -/
structure Follows (R : OrderStatus → OrderStatus → Prop) (s s' : Store) : Prop where
  orders : ∀ o ∈ s.orders, ∃ o' ∈ s'.orders, o'.id = o.id ∧ R o.status o'.status
  items : ∀ i ∈ s.items, ∃ i' ∈ s'.items, i'.id = i.id ∧ i'.orderId = i.orderId

theorem Follows.of_records (hrefl : ∀ a, R a a) (horders : s'.orders = s.orders)
    (hitems : s'.items = s.items) : s.Follows R s' :=
  ⟨fun o ho => ⟨o, horders ▸ ho, rfl, hrefl _⟩, fun i hi => ⟨i, hitems ▸ hi, rfl, rfl⟩⟩

theorem Follows.mono {R' : OrderStatus → OrderStatus → Prop} (h : s.Follows R s')
    (himp : ∀ a b, R a b → R' a b) : s.Follows R' s' := by
  refine ⟨?_, h.items⟩
  intro o ho
  obtain ⟨o', ho', hid, hR⟩ := h.orders o ho
  exact ⟨o', ho', hid, himp _ _ hR⟩

/-- Statuses that stay may come before and after. -/
theorem Follows.trans {Q P : OrderStatus → OrderStatus → Prop} (h : s.Follows R s')
    (h' : s'.Follows Q t) (hcomp : ∀ a b c, R a b → Q b c → P a c) : s.Follows P t := by
  refine ⟨?_, ?_⟩
  · intro o ho
    obtain ⟨o', ho', hid, hR⟩ := h.orders o ho
    obtain ⟨o'', ho'', hid', hQ⟩ := h'.orders o' ho'
    exact ⟨o'', ho'', hid'.trans hid, hcomp _ _ _ hR hQ⟩
  · intro i hi
    obtain ⟨i', hi', hid, horder⟩ := h.items i hi
    obtain ⟨i'', hi'', hid', horder'⟩ := h'.items i' hi'
    exact ⟨i'', hi'', hid'.trans hid, horder'.trans horder⟩

theorem Follows.updateOrder {id : String} {change : Order → Order} (hrefl : ∀ a, R a a)
    (hid : ∀ o, (change o).id = o.id)
    (hstatus : ∀ o ∈ s.orders, o.id = id → R o.status (change o).status) :
    s.Follows R (s.updateOrder id change) := by
  refine ⟨?_, fun i hi => ⟨i, hi, rfl, rfl⟩⟩
  intro o ho
  refine ⟨_, mem_updateOrder.mpr ⟨o, ho, rfl⟩, ?_⟩
  by_cases hhere : o.id = id
  · simp only [hhere, beq_self_eq_true, if_true]
    exact ⟨(hid o).trans hhere, hstatus o ho hhere⟩
  · rw [if_neg (by simpa using hhere)]
    exact ⟨rfl, hrefl _⟩

theorem Follows.updateItem {id : String} {change : Item → Item} (hrefl : ∀ a, R a a)
    (hkeeps : KeepsPlace change) : s.Follows R (s.updateItem id change) := by
  refine ⟨fun o ho => ⟨o, ho, rfl, hrefl _⟩, ?_⟩
  intro i hi
  refine ⟨_, mem_updateItem.mpr ⟨i, hi, rfl⟩, ?_⟩
  split
  · exact ⟨(hkeeps i).1, (hkeeps i).2.1⟩
  · exact ⟨rfl, rfl⟩

theorem Follows.insert {item : Item} (hrefl : ∀ a, R a a) (horders : s'.orders = s.orders)
    (hitems : s'.items = s.items ++ [item]) : s.Follows R s' := by
  refine ⟨fun o ho => ⟨o, horders ▸ ho, rfl, hrefl _⟩, ?_⟩
  intro i hi
  exact ⟨i, hitems ▸ List.mem_append_left _ hi, rfl, rfl⟩

/-! Operations that leave all statuses alone. -/

/-- A step that keeps a store steady and all statuses of orders as they are. -/
def Goes (s s' : Store) : Prop := s.Steady → s'.Steady ∧ s.Follows Eq s'

theorem Goes.refl (s : Store) : s.Goes s :=
  fun h => ⟨h, Follows.of_records (fun _ => rfl) rfl rfl⟩

theorem Goes.trans (h : s.Goes s') (h' : s'.Goes t) : s.Goes t := by
  intro hsteady
  obtain ⟨hsteady', hfollows⟩ := h hsteady
  obtain ⟨hsteady'', hfollows'⟩ := h' hsteady'
  exact ⟨hsteady'', hfollows.trans hfollows' fun _ _ _ => Eq.trans⟩

/-- A step that keeps a store steady and takes each order at most one step on. -/
def Advances (s s' : Store) : Prop :=
  s.Steady → s'.Steady ∧ s.Follows OrderStatus.Moves s'

theorem Follows.moves_after (h : s.Follows Eq s') (h' : s'.Follows OrderStatus.Moves t) :
    s.Follows OrderStatus.Moves t :=
  h.trans h' fun _ _ _ heq hmoves => heq ▸ hmoves

theorem Follows.moves_before (h : s.Follows OrderStatus.Moves s') (h' : s'.Follows Eq t) :
    s.Follows OrderStatus.Moves t :=
  h.trans h' fun _ _ _ hmoves heq => heq ▸ hmoves

theorem Goes.advances (h : s.Goes s') : s.Advances s' := by
  intro hsteady
  obtain ⟨hsteady', hfollows⟩ := h hsteady
  exact ⟨hsteady', hfollows.mono fun _ _ heq => Or.inl heq.symm⟩

theorem Goes.advances_after (h : s.Goes s') (h' : s'.Advances t) : s.Advances t := by
  intro hsteady
  obtain ⟨hsteady', hfollows⟩ := h hsteady
  obtain ⟨hsteady'', hmoves⟩ := h' hsteady'
  exact ⟨hsteady'', hfollows.moves_after hmoves⟩

theorem Advances.goes_after (h : s.Advances s') (h' : s'.Goes t) : s.Advances t := by
  intro hsteady
  obtain ⟨hsteady', hmoves⟩ := h hsteady
  obtain ⟨hsteady'', hfollows⟩ := h' hsteady'
  exact ⟨hsteady'', hmoves.moves_before hfollows⟩

theorem goes_of_records (horders : s'.orders = s.orders) (hitems : s'.items = s.items)
    (hmerged : ∀ id, s.merged.contains id = true → s'.merged.contains id = true) :
    s.Goes s' := by
  intro h
  refine ⟨⟨h.toBalanced.of_eq horders hitems, hitems ▸ h.idle, ?_⟩,
    Follows.of_records (fun _ => rfl) horders hitems⟩
  intro o ho
  rw [horders] at ho
  exact (h.settled o ho).of_same rfl rfl ⟨rfl, rfl, rfl⟩ (has_of_items hitems o.id)
    (hmerged o.id)

/-- A change to an order that leaves its status and counters alone. -/
theorem goes_updateOrder {id : String} {change : Order → Order}
    (hid : ∀ o, (change o).id = o.id) (hstatus : ∀ o, (change o).status = o.status)
    (hsame : ∀ o, (change o).total = o.total ∧ (change o).completed = o.completed ∧
      (change o).failed = o.failed) : s.Goes (s.updateOrder id change) := by
  intro h
  refine ⟨⟨h.toBalanced.updateOrder hid hsame, h.idle, ?_⟩,
    Follows.updateOrder (fun _ => rfl) hid fun o _ _ => (hstatus o).symm⟩
  intro o ho
  obtain ⟨before, hbefore, hafter⟩ := updateOrder_cases ho
  have hsettled := h.settled before hbefore
  rcases hafter with ⟨-, rfl⟩ | ⟨-, rfl⟩
  · exact hsettled.of_same (hid before) (hstatus before) (hsame before)
      (has_of_items rfl before.id) fun hm => hm
  · exact hsettled.of_same rfl rfl ⟨rfl, rfl, rfl⟩ (has_of_items rfl _) fun hm => hm

theorem goes_createOrder {id : String} {name : Option String}
    (hok : createOrder (Order.create id name) s = .ok ((), s')) : s.Goes s' := by
  intro h
  have hbalanced := h.toBalanced.createOrder hok
  obtain ⟨hnew, rfl⟩ := createOrder_ok hok
  have hother : ∀ o ∈ s.orders, o.id ≠ id := order?_eq_none.mp hnew
  refine ⟨⟨hbalanced, h.idle, ?_⟩, ?_⟩
  · intro o ho
    rcases List.mem_append.mp ho with hold | hcreated
    · exact (h.settled o hold).of_same rfl rfl ⟨rfl, rfl, rfl⟩ (has_of_items rfl o.id) fun hm => hm
    · rw [List.mem_singleton.mp hcreated]
      have hnone : ∀ i ∈ s.items, i.orderId ≠ id := by
        intro i hi heq
        obtain ⟨o, ho, hid⟩ := List.mem_map.mp (h.placed i hi)
        exact hother o ho (hid.trans heq)
      refine ⟨fun _ => ⟨fun i hi horder => absurd horder (hnone i hi), rfl, rfl⟩, ?_, ?_, ?_, ?_,
        ?_⟩
      · simp [Order.create]
      · simp [Order.create]
      · simp [Order.create]
      · simp [Order.create]
      · simp [Order.create]
  · exact ⟨fun o ho => ⟨o, List.mem_append_left _ ho, rfl, rfl⟩, fun i hi => ⟨i, hi, rfl, rfl⟩⟩

theorem goes_addItem {item : Item} (hok : addItem item s = .ok ((), s'))
    (hfirst : item.retryOf = none) : s.Goes s' := by
  intro h
  have hbalanced := h.toBalanced.addItem hok hfirst
  obtain ⟨o, ho, hdraft, hpending, -, rfl⟩ := addItem_ok hok
  obtain ⟨homem, hoid⟩ := order?_mem ho
  refine ⟨⟨hbalanced, ?_, ?_⟩, ?_⟩
  · intro i hi
    rcases List.mem_append.mp hi with hold | hnew
    · exact h.idle i hold
    · rw [List.mem_singleton.mp hnew, hpending]
      exact ItemStatus.noConfusion
  · intro after hafter
    obtain ⟨before, hbefore, hchange⟩ := updateOrder_cases hafter
    have hsettled := h.settled before hbefore
    rcases hchange with ⟨hhere, rfl⟩ | ⟨hhere, rfl⟩
    · -- the order is drafted, so all that it promises is that its items are pending
      have hsame : before = o := h.order_unique hbefore homem (hhere.trans hoid.symm)
      have hstatus : before.status = .draft := hsame ▸ hdraft
      obtain ⟨hitems, hcounts⟩ := hsettled.draft hstatus
      refine ⟨fun _ => ⟨?_, hcounts⟩, ?_, ?_, ?_, ?_, ?_⟩
      · intro i hi horder
        rcases List.mem_append.mp hi with hold | hnew
        · exact hitems i hold horder
        · rw [List.mem_singleton.mp hnew]
          exact hpending
      · simp [hstatus]
      · simp [hstatus]
      · simp [hstatus]
      · simp [hstatus]
      · simp [hstatus]
    · refine hsettled.of_same rfl rfl ⟨rfl, rfl, rfl⟩ ?_ id
      intro status
      rw [has_updateOrder, has_insert rfl]
      simp [Ne.symm hhere]
  · have hinsert : s.Follows Eq { s with items := s.items ++ [item] } :=
      Follows.insert (fun _ => rfl) rfl rfl
    exact hinsert.trans (Follows.updateOrder (fun _ => rfl) (fun _ => rfl) fun _ _ _ => rfl)
      fun _ _ _ => Eq.trans

theorem goes_attachFile {file : FileRef} (hok : attachFile file s = .ok ((), s')) :
    s.Goes s' := by
  intro h
  have hbalanced := h.toBalanced.attachFile hok
  obtain ⟨found, -, hfound, -, -, -, -, rfl⟩ := attachFile_ok hok
  have hkeeps : KeepsPlace fun i : Item => { i with files := i.files ++ [file] } :=
    fun i => ⟨rfl, rfl, rfl⟩
  refine ⟨⟨hbalanced, ?_, ?_⟩, Follows.updateItem (fun _ => rfl) hkeeps⟩
  · intro i hi
    obtain ⟨before, hbefore, ⟨-, rfl⟩ | ⟨-, rfl⟩⟩ := updateItem_cases hi
    · exact h.idle before hbefore
    · exact h.idle _ hbefore
  · intro o ho
    refine (h.settled o ho).of_same rfl rfl ⟨rfl, rfl, rfl⟩ ?_ fun hm => hm
    exact has_updateItem fun _ _ _ => ⟨rfl, fun _ => rfl⟩

theorem goes_saveMerged {id : String} {table : Merged}
    (hok : saveMerged id table s = .ok ((), s')) : s.Goes s' := by
  obtain ⟨-, rfl⟩ := saveMerged_ok hok
  refine goes_of_records rfl rfl ?_
  intro other hother
  rw [Dict.contains_insert, hother, Bool.or_true]

/-! Operations that move one order on. -/

/-- One order moves on; the others are as they were. -/
theorem Steady.move (h : s.Steady) {id : String} {target : OrderStatus}
    (hmoves : ∀ o ∈ s.orders, o.id = id → o.status.Moves target)
    (hsettled : ∀ o ∈ s.orders, o.id = id → s.Settled { o with status := target }) :
    (s.updateOrder id fun o => { o with status := target }).Steady ∧
      s.Follows OrderStatus.Moves (s.updateOrder id fun o => { o with status := target }) := by
  have hbalanced : (s.updateOrder id fun o => { o with status := target }).Balanced :=
    h.toBalanced.updateOrder (fun _ => rfl) fun _ => ⟨rfl, rfl, rfl⟩
  refine ⟨⟨hbalanced, h.idle, ?_⟩,
    Follows.updateOrder (fun _ => Or.inl rfl) (fun _ => rfl) hmoves⟩
  intro o ho
  obtain ⟨before, hbefore, ⟨hhere, rfl⟩ | ⟨-, rfl⟩⟩ := updateOrder_cases ho
  · exact (hsettled before hbefore hhere).of_same rfl rfl ⟨rfl, rfl, rfl⟩ (has_of_items rfl _)
      fun hm => hm
  · exact (h.settled _ hbefore).of_same rfl rfl ⟨rfl, rfl, rfl⟩ (has_of_items rfl _)
      fun hm => hm

theorem Steady.submit (h : s.Steady) {id : String} {pending : List String}
    (hok : Store.submit id s = .ok (pending, s')) :
    s'.Steady ∧ s.Follows OrderStatus.Moves s' := by
  obtain ⟨o, ho, hdraft, htotal, -, rfl⟩ := submit_ok hok
  obtain ⟨homem, hoid⟩ := order?_mem ho
  have hsame : ∀ other ∈ s.orders, other.id = id → other = o :=
    fun other hother hid => h.order_unique hother homem (hid.trans hoid.symm)
  refine h.move ?_ ?_
  · intro other hother hid
    rw [hsame other hother hid, hdraft]
    exact Or.inr rfl
  · intro other hother hid
    rw [hsame other hother hid]
    obtain ⟨hitems, hcompleted, hfailed⟩ := (h.settled o homem).draft hdraft
    refine ⟨by simp, fun _ => ?_, by simp, by simp, by simp, by simp⟩
    -- nothing is resolved, so an order that is not empty has an open item
    have hopen : ¬ ∀ i ∈ s.items, i.orderId = o.id → i.status.isFinal = true := by
      intro hall
      have hresolved := (h.resolved_iff homem).mpr hall
      omega
    simp only [not_forall] at hopen
    obtain ⟨i, hi, horder, -⟩ := hopen
    exact ⟨i, hi, horder, hitems i hi horder⟩

/-- A merge that is kept completes its order. -/
theorem Steady.complete (h : s.Steady) {id : String} {moved : Bool}
    (hok : Store.moveOrder id .mapping .completed s = .ok (moved, s'))
    (hmerged : s.merged.contains id = true) : s'.Steady ∧ s.Follows OrderStatus.Moves s' := by
  obtain ⟨-, ⟨-, o, ho, hmapping, rfl⟩ | ⟨-, rfl⟩⟩ := moveOrder_ok hok
  · obtain ⟨homem, hoid⟩ := order?_mem ho
    have hsame : ∀ other ∈ s.orders, other.id = id → other = o :=
      fun other hother hid => h.order_unique hother homem (hid.trans hoid.symm)
    refine h.move ?_ ?_
    · intro other hother hid
      rw [hsame other hother hid, hmapping]
      exact Or.inr rfl
    · intro other hother hid
      rw [hsame other hother hid]
      have hresolved := (h.settled o homem).resolved (Or.inl hmapping)
      exact ⟨by simp, by simp, fun _ => hresolved, by simp, by simp,
        fun _ => Or.inr (hoid.symm ▸ hmerged)⟩
  · exact (Goes.refl _).advances h

theorem Steady.retry (h : s.Steady) {next : Item} {o : Order}
    (hok : Store.retry next s = .ok (o, s'))
    (hplace : ∀ i ∈ s.items, next.retryOf = some i.id → i.orderId = next.orderId)
    (hpending : next.status = .pending) : s'.Steady ∧ s.Follows OrderStatus.Moves s' := by
  have hbalanced := h.toBalanced.retry hok hplace (by rw [hpending]; rfl)
  obtain ⟨failedId, failed, before, hretry, hfound, -, -, hbefore, hstatus, -, hs, -⟩ :=
    retry_ok hok
  obtain ⟨hfailed, rfl⟩ := item?_mem hfound
  obtain ⟨hbmem, hbid⟩ := order?_mem hbefore
  rw [hplace failed hfailed hretry] at hs hbid
  have hsame : ∀ other ∈ s.orders, other.id = next.orderId → other = before :=
    fun other hother hid => h.order_unique hother hbmem (hid.trans hbid.symm)
  have hreopened : (reopen before).status = .processing := by
    rcases List.mem_cons.mp hstatus with hprocessing | hfailing
    · simp [reopen, releaseFailed, hprocessing]
    · simp [reopen, releaseFailed, List.mem_singleton.mp hfailing]
  have hitems : s'.items = s.items ++ [next] := by rw [hs]
  have horders : s'.orders = (s.updateOrder next.orderId reopen).orders := by rw [hs]
  refine ⟨⟨hbalanced, ?_, ?_⟩, ?_⟩
  · intro i hi
    rw [hitems, List.mem_append, List.mem_singleton] at hi
    rcases hi with hold | rfl
    · exact h.idle i hold
    · rw [hpending]
      exact ItemStatus.noConfusion
  · intro after hafter
    rw [horders] at hafter
    obtain ⟨other, hother, ⟨hhere, rfl⟩ | ⟨hhere, rfl⟩⟩ := updateOrder_cases hafter
    · rw [hsame other hother hhere]
      refine ⟨?_, fun _ => ?_, ?_, ?_, ?_, ?_⟩
      · simp [hreopened]
      · exact ⟨next, by rw [hitems]; simp, hbid.symm, hpending⟩
      · simp [hreopened]
      · simp [hreopened]
      · simp [hreopened]
      · simp [hreopened]
    · refine (h.settled _ hother).of_same rfl rfl ⟨rfl, rfl, rfl⟩ ?_ (by rw [hs]; exact id)
      intro status
      rw [has_insert hitems]
      simp [Ne.symm hhere]
  · have hreopen : s.Follows OrderStatus.Moves (s.updateOrder next.orderId reopen) := by
      refine Follows.updateOrder (fun _ => Or.inl rfl) (fun _ => rfl) ?_
      intro other hother hid
      rw [hsame other hother hid, hreopened]
      rcases List.mem_cons.mp hstatus with hprocessing | hfailing
      · exact Or.inl hprocessing.symm
      · rw [List.mem_singleton.mp hfailing]
        exact Or.inr rfl
    have hinsert : (s.updateOrder next.orderId reopen).Follows Eq s' :=
      Follows.insert (fun _ => rfl) horders hitems
    exact hreopen.moves_before hinsert

/-! Processing an item. -/

/-- An item is being processed. Its order is in processing, and nothing else is
amiss. -/
structure Busy (s : Store) (id order : String) : Prop extends Balanced s where
  item : ∃ i ∈ s.items, i.id = id ∧ i.orderId = order ∧ i.status = .processing
  idle : ∀ i ∈ s.items, i.id ≠ id → i.status ≠ .processing
  others : ∀ o ∈ s.orders, o.id ≠ order → s.Settled o
  processing : ∀ o ∈ s.orders, o.id = order → o.status = .processing

/-- An order is in processing, perhaps without a pending item, and nothing else
is amiss. -/
structure Due (s : Store) (order : String) : Prop extends Balanced s where
  idle : ∀ i ∈ s.items, i.status ≠ .processing
  others : ∀ o ∈ s.orders, o.id ≠ order → s.Settled o
  processing : ∀ o ∈ s.orders, o.id = order → o.status = .processing ∧ 0 < o.total

theorem Busy.of_records {id order : String} (h : s.Busy id order) (horders : s'.orders = s.orders)
    (hitems : s'.items = s.items) (hmerged : s'.merged = s.merged) : s'.Busy id order := by
  refine ⟨h.toBalanced.of_eq horders hitems, hitems ▸ h.item, hitems ▸ h.idle, ?_,
    horders ▸ h.processing⟩
  intro o ho hne
  rw [horders] at ho
  exact (h.others o ho hne).of_same rfl rfl ⟨rfl, rfl, rfl⟩ (has_of_items hitems o.id)
    (by rw [hmerged]; exact fun hm => hm)

/-- The order of a pending item is in processing, once it was submitted. -/
theorem Steady.processing_of_pending (h : s.Steady) {i : Item} (hi : i ∈ s.items)
    (hpending : i.status = .pending) {o : Order} (ho : o ∈ s.orders) (horder : o.id = i.orderId)
    (hsent : o.status ≠ .draft) : o.status = .processing := by
  have hsettled := h.settled o ho
  by_cases hresolved : o.status = .mapping ∨ o.status = .completed ∨ o.status = .failed
  · have hfinal := (hsettled.resolved hresolved).1 i hi horder.symm
    simp [hpending, ItemStatus.isFinal] at hfinal
  · cases hstatus : o.status <;> simp_all

theorem Steady.begin (h : s.Steady) {id : String} {now : Time.Timestamp} {started : Item}
    (hok : Store.begin id now s = .ok (some started, s'))
    (hsent : ∀ i ∈ s.items, i.id = id → ∀ o ∈ s.orders, o.id = i.orderId → o.status ≠ .draft) :
    s'.Busy id started.orderId ∧ s.Follows Eq s' ∧ started.id = id ∧
      started.status = .processing := by
  have hbalanced := h.toBalanced.begin hok
  obtain ⟨i, hfound, ⟨hpending, hstarted, rfl⟩ | ⟨-, hnone, -⟩⟩ := begin_ok hok
  · obtain ⟨hi, rfl⟩ := item?_mem hfound
    rw [Option.some.injEq] at hstarted
    subst hstarted
    have hkeeps : KeepsPlace fun i : Item =>
        { i with status := .processing, startedAt := some now } := fun i => ⟨rfl, rfl, rfl⟩
    refine ⟨⟨hbalanced, ?_, ?_, ?_, ?_⟩, Follows.updateItem (fun _ => rfl) hkeeps, rfl, rfl⟩
    · exact ⟨_, mem_updateItem.mpr ⟨i, hi, if_pos (beq_self_eq_true i.id)⟩, rfl, rfl, rfl⟩
    · intro j hj hne
      obtain ⟨before, hbefore, ⟨hhere, rfl⟩ | ⟨-, rfl⟩⟩ := updateItem_cases hj
      · exact absurd hhere hne
      · exact h.idle _ hbefore
    · intro o ho hne
      refine (h.settled o ho).of_same rfl rfl ⟨rfl, rfl, rfl⟩ ?_ fun hm => hm
      refine has_updateItem ?_
      intro j hj hid
      rw [h.item_unique hj hi hid]
      exact ⟨rfl, fun horder => absurd horder.symm hne⟩
    · intro o ho horder
      exact h.processing_of_pending hi hpending ho horder (hsent i hi rfl o ho horder)
  · simp at hnone

/-- A copy of the item being processed that is final can be resolved. -/
theorem Busy.resolve_succeeds {held : Item} (h : s.Busy held.id held.orderId)
    (hfinal : held.status.isFinal = true) : ∃ o s', Store.resolve held s = .ok (o, s') := by
  obtain ⟨i, hi, hid, horder, hprocessing⟩ := h.item
  have hfound : s.item? held.id = some i := by
    cases hsome : s.item? held.id with
    | none => exact absurd hid (item?_eq_none.mp hsome i hi)
    | some j =>
      obtain ⟨hj, hjid⟩ := item?_mem hsome
      rw [h.item_unique hj hi (hjid.trans hid.symm)]
  let s' := (s.updateItem held.id (settle held)).updateOrder held.orderId
    (countResolution held.status)
  obtain ⟨before, hbefore, hbid⟩ := List.mem_map.mp (h.placed i hi)
  have horders : ∃ o, s'.order? held.orderId = some o := by
    rw [← Option.ne_none_iff_exists', Ne, order?_eq_none]
    intro hall
    refine hall _ (mem_updateOrder.mpr ⟨before, hbefore, rfl⟩) ?_
    rw [if_pos (by simp [hbid, horder]), (countResolution_counters _ _).1, hbid, horder]
  obtain ⟨o, ho⟩ := horders
  refine ⟨o, s', ?_⟩
  simp only [Store.resolve, hfinal, if_true, hfound, hprocessing, Except.bind_eq_ok,
    liftFault_eq_ok, order_eq_ok]
  exact ⟨o, ho, rfl⟩

theorem Busy.resolve {held : Item} {o : Order} (h : s.Busy held.id held.orderId)
    (hok : Store.resolve held s = .ok (o, s')) :
    s'.Due held.orderId ∧ s.Follows Eq s' ∧ s'.order? held.orderId = some o := by
  obtain ⟨i, hi, hid, horder, hprocessing⟩ := h.item
  have hplace : ∀ j ∈ s.items, j.id = held.id → j.orderId = held.orderId := by
    intro j hj hjid
    rw [h.item_unique hj hi (hjid.trans hid.symm), horder]
  have hbalanced := h.toBalanced.resolve hok hplace
  obtain ⟨hfinal, -, rfl, hfound⟩ := resolve_ok hok
  have hkeeps : KeepsPlace (settle held) := fun i => ⟨rfl, rfl, rfl⟩
  have hcounters := countResolution_counters held.status
  have hstatus : ∀ o, (countResolution held.status o).status = o.status := by
    intro o
    cases held.status <;> rfl
  refine ⟨⟨hbalanced, ?_, ?_, ?_⟩, ?_, hfound⟩
  · intro j hj
    obtain ⟨before, hbefore, ⟨-, rfl⟩ | ⟨hhere, rfl⟩⟩ := updateItem_cases hj
    · intro hsettled
      simp only [settle] at hsettled
      simp [hsettled, ItemStatus.isFinal] at hfinal
    · exact h.idle _ hbefore hhere
  · intro after hafter hne
    obtain ⟨before, hbefore, ⟨hhere, rfl⟩ | ⟨hhere, rfl⟩⟩ := updateOrder_cases hafter
    · rw [(hcounters before).1] at hne
      exact absurd hhere hne
    · refine (h.others _ hbefore hhere).of_same rfl rfl ⟨rfl, rfl, rfl⟩ ?_ fun hm => hm
      intro status
      rw [has_updateOrder]
      refine has_updateItem ?_ status
      intro j hj hjid
      exact ⟨rfl, fun hjorder => absurd (hjorder.symm.trans (hplace j hj hjid)) hhere⟩
  · intro after hafter hid'
    obtain ⟨before, hbefore, ⟨hhere, rfl⟩ | ⟨hhere, rfl⟩⟩ := updateOrder_cases hafter
    · rw [hstatus, (hcounters before).2.1]
      refine ⟨h.processing before hbefore hhere, ?_⟩
      -- the item itself takes up a slot
      have htotal := (h.exact before hbefore).total
      rw [htotal, countOf, List.countP_pos_iff]
      have hnot := h.not_isRetried hi (by simp [hprocessing])
      exact ⟨i, hi, by simp [horder, hhere, hnot]⟩
    · exact absurd hid' hhere
  · have hitem : s.Follows Eq (s.updateItem held.id (settle held)) :=
      Follows.updateItem (fun _ => rfl) hkeeps
    exact hitem.trans (Follows.updateOrder (fun _ => rfl) (fun o => (hcounters o).1)
      fun o _ _ => (hstatus o).symm) fun _ _ _ => Eq.trans

/-- While items are left an order that is due stays in processing. -/
theorem Due.steady {order : String} (h : s.Due order)
    (hleft : ∀ o ∈ s.orders, o.id = order → o.allResolved = false) : s.Steady := by
  refine ⟨h.toBalanced, h.idle, ?_⟩
  intro o ho
  by_cases hid : o.id = order
  · obtain ⟨hprocessing, hpos⟩ := h.processing o ho hid
    have hunresolved := hleft o ho hid
    simp only [Order.allResolved, Order.resolved, Bool.and_eq_false_iff, decide_eq_false_iff_not,
      beq_eq_false_iff_ne] at hunresolved
    have hopen : ¬ ∀ i ∈ s.items, i.orderId = o.id → i.status.isFinal = true := by
      rw [← h.resolved_iff ho]
      omega
    simp only [not_forall] at hopen
    obtain ⟨i, hi, horder, hnot⟩ := hopen
    have hpending : i.status = .pending := by
      have hidle := h.idle i hi
      cases hcase : i.status <;> simp_all [ItemStatus.isFinal]
    exact ⟨by simp [hprocessing], fun _ => ⟨i, hi, horder, hpending⟩, by simp [hprocessing],
      by simp [hprocessing], by simp [hprocessing], by simp [hprocessing]⟩
  · exact h.others o ho hid

/-- Once all items are resolved an order that is due goes where its counters
say. -/
theorem Due.rolled {o : Order} (h : s.Due o.id) (ho : o ∈ s.orders) {facts : RollupFacts}
    (hfacts : facts.total = o.total ∧ facts.completed = o.completed ∧ facts.failed = o.failed)
    {target : OrderStatus} (htarget : facts.target? = some target) :
    (s.updateOrder o.id fun o => { o with status := target }).Steady ∧
      s.Follows OrderStatus.Moves (s.updateOrder o.id fun o => { o with status := target }) := by
  obtain ⟨hpos, hresolved, hwhere⟩ := RollupFacts.target?_eq_some htarget
  obtain ⟨htotal, hcompleted, hfailed⟩ := hfacts
  rw [htotal, hcompleted, hfailed] at hresolved
  rw [htotal] at hpos
  rw [hcompleted, hfailed] at hwhere
  have hall := (h.resolved_iff ho).mp hresolved
  have hstatus := (h.processing o ho rfl).1
  have hbalanced : (s.updateOrder o.id fun o => { o with status := target }).Balanced :=
    h.toBalanced.updateOrder (fun _ => rfl) fun _ => ⟨rfl, rfl, rfl⟩
  refine ⟨⟨hbalanced, h.idle, ?_⟩, ?_⟩
  · intro after hafter
    obtain ⟨before, hbefore, ⟨hhere, rfl⟩ | ⟨hhere, rfl⟩⟩ := updateOrder_cases hafter
    · rw [h.order_unique hbefore ho hhere]
      rcases hwhere with ⟨rfl, hsome⟩ | ⟨rfl, hnone⟩ | ⟨rfl, hsome⟩
      · have hhas : s.Has o.id .completed := h.completed_pos ho hsome
        exact ⟨by simp, by simp, fun _ => ⟨hall, hresolved, hpos⟩, fun _ => hhas, by simp,
          by simp⟩
      · exact ⟨by simp, by simp, fun _ => ⟨hall, hresolved, hpos⟩, by simp, by simp,
          fun _ => Or.inl hnone⟩
      · exact ⟨by simp, by simp, fun _ => ⟨hall, hresolved, hpos⟩, by simp, fun _ => hsome,
          by simp⟩
    · exact (h.others _ hbefore hhere).of_same rfl rfl ⟨rfl, rfl, rfl⟩ (has_of_items rfl _)
        fun hm => hm
  · refine Follows.updateOrder (fun _ => Or.inl rfl) (fun _ => rfl) ?_
    intro before hbefore hhere
    rw [h.order_unique hbefore ho hhere, hstatus]
    rcases hwhere with ⟨rfl, -⟩ | ⟨rfl, -⟩ | ⟨rfl, -⟩
    · exact Or.inr rfl
    · exact Or.inr rfl
    · exact Or.inr rfl

end Store

end Collate
