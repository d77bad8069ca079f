import Collate.Proofs.Service.Announced

/-!
What orders count, call by call. Only processing an item and trying it again change how many
items an order counts as completed or failed, and only merging changes which orders are merged.
Beside it two things that calls keep up: merged orders were sent off, and an item that is still
to be processed has no error, so that the event of its resolution tells how it ended.
-/

namespace Collate

def tally (events : List ProgressEvent) (order : String) (phase : Phase) : Nat :=
  events.countP fun e => e.orderId == order && e.phase == phase

theorem tally_append (events new : List ProgressEvent) (order : String) (phase : Phase) :
    tally (events ++ new) order phase = tally events order phase + tally new order phase :=
  List.countP_append

theorem tally_singleton (e : ProgressEvent) (order : String) (phase : Phase) :
    tally [e] order phase = (e.orderId == order && e.phase == phase).toNat := by
  rw [tally, List.countP_singleton]
  cases e.orderId == order && e.phase == phase <;> rfl

/-- Plain notices tell of nothing that is counted. -/
theorem tally_plain {notices : List Notice} (h : ∀ n ∈ notices, n.Plain) (order : String)
    {phase : Phase} (hphase : phase.settles = true) :
    tally (notices.map (·.event)) order phase = 0 := by
  rw [tally, List.countP_eq_zero]
  intro e he
  obtain ⟨n, hn, rfl⟩ := List.mem_map.mp he
  have hne : n.event.phase ≠ phase := by
    rintro rfl
    rw [(h n hn).phase] at hphase
    cases hphase
  simp [hne]

namespace ProgressEvent

/-- Of an order with items the percentage is exact, and full only once all are resolved. -/
theorem percent_of_measured {e : ProgressEvent} {o : Order} (he : e.Shows o) (ho : o.Measured) :
    e.percent = (o.completed + o.failed) * 100 / o.total ∧
      (e.percent = 100 ↔ o.completed + o.failed = o.total) := by
  obtain ⟨hpos, hle⟩ := ho
  have hmost : (o.completed + o.failed) * 100 / o.total ≤ 100 :=
    Nat.div_le_of_le_mul (Nat.mul_le_mul_right 100 hle)
  have hpercent : e.percent = (o.completed + o.failed) * 100 / o.total := by
    rw [percent, he.total, he.completed, he.failed, if_neg (Nat.pos_iff_ne_zero.mp hpos),
      Nat.min_eq_right hmost]
  refine ⟨hpercent, ?_⟩
  rw [hpercent]
  constructor
  · intro hfull
    have hall : 100 * o.total ≤ (o.completed + o.failed) * 100 :=
      (Nat.le_div_iff_mul_le hpos).mp (Nat.le_of_eq hfull.symm)
    omega
  · intro hall
    rw [hall, Nat.mul_div_cancel_left _ hpos]

end ProgressEvent

namespace Store

variable {s s' : Store}

/-! What orders count. -/

/-- How many items of an order are completed and how many have failed, as the order says. -/
def counters (s : Store) (id : String) : Nat × Nat :=
  match s.order? id with
  | some o => (o.completed, o.failed)
  | none => (0, 0)

theorem counters_of_order? {id : String} (h : s'.order? id = s.order? id) :
    s'.counters id = s.counters id := by
  rw [counters, counters, h]

theorem counters_some {id : String} {o : Order} (ho : s.order? id = some o) :
    s.counters id = (o.completed, o.failed) := by
  rw [counters, ho]

theorem counters_updateOrder {id : String} {change : Order → Order}
    (hsame : ∀ o, (change o).id = o.id ∧ (change o).completed = o.completed ∧
      (change o).failed = o.failed) (other : String) :
    (s.updateOrder id change).counters other = s.counters other := by
  rw [counters, order?_updateOrder (fun o => (hsame o).1)]
  split_ifs with hhere
  · subst hhere
    cases ho : s.order? other with
    | none =>
      rw [counters, ho]
      rfl
    | some o =>
      rw [counters_some ho]
      exact Prod.ext (hsame o).2.1 (hsame o).2.2
  · rfl

structure Level (s s' : Store) : Prop where
  counters : ∀ id, s'.counters id = s.counters id
  merged : s'.merged = s.merged

theorem Level.refl (s : Store) : s.Level s := ⟨fun _ => rfl, rfl⟩

theorem Level.trans {t : Store} (h : s.Level s') (h' : s'.Level t) : s.Level t :=
  ⟨fun id => (h'.counters id).trans (h.counters id), h'.merged.trans h.merged⟩

theorem Level.of_orders (horders : s'.orders = s.orders) (hmerged : s'.merged = s.merged) :
    s.Level s' :=
  ⟨fun id => counters_of_order? (by rw [order?, order?, horders]), hmerged⟩

/-- A change to an order that counts the same. -/
theorem Level.updateOrder {id : String} {change : Order → Order}
    (hsame : ∀ o, (change o).id = o.id ∧ (change o).completed = o.completed ∧
      (change o).failed = o.failed) : s.Level (s.updateOrder id change) :=
  ⟨counters_updateOrder hsame, rfl⟩

theorem level_createOrder {id : String} {name : Option String}
    (hok : createOrder (Order.create id name) s = .ok ((), s')) : s.Level s' := by
  obtain ⟨hnew, rfl⟩ := createOrder_ok hok
  refine ⟨fun other => ?_, rfl⟩
  have hfind : order? { s with orders := s.orders ++ [Order.create id name] } other =
      (s.order? other).or ([Order.create id name].find? (·.id == other)) := List.find?_append
  cases ho : s.order? other with
  | some o => exact counters_of_order? (by rw [hfind, ho, Option.some_or])
  | none =>
    rw [ho, Option.none_or, List.find?_singleton] at hfind
    rw [counters, counters, hfind, ho]
    split_ifs
    · rfl
    · rfl

theorem level_rolledUp (s : Store) (id : String) : s.Level (s.rolledUp id) := by
  rcases s.rolledUp_cases id with hsame | ⟨o, target, -, -, -, hmoves⟩
  · rw [hsame]
    exact .refl s
  · rw [hmoves]
    exact .updateOrder fun _ => ⟨rfl, rfl, rfl⟩

/-- Keeping a merged table counts nothing. -/
theorem counters_kept (s : Store) (id : String) (status : OrderStatus) (table : Merged)
    (other : String) : (s.kept id status table).counters other = s.counters other := by
  have hnoted : ({ s with merged := s.merged.insert id table }.noted id none).counters other =
      s.counters other := by
    rw [noted, counters_updateOrder]
    · rfl
    · exact fun _ => ⟨rfl, rfl, rfl⟩
  rw [kept]
  split_ifs
  · rw [counters_updateOrder, hnoted]
    exact fun _ => ⟨rfl, rfl, rfl⟩
  · exact hnoted

theorem kept_merged (s : Store) (id : String) (status : OrderStatus) (table : Merged) :
    (s.kept id status table).merged = s.merged.insert id table := by
  rw [kept]
  split_ifs
  · rfl
  · rfl

/-- Processing an item counts it, at its own order. -/
theorem processed_counters {i : Item} {o : Order} (ho : s.order? i.orderId = some o)
    (now : Time.Timestamp) (ex : Service.Examination) (id : String) :
    (s.processed i now ex).counters id = if id = i.orderId then
      (o.completed + ((i.judged now ex.verdict).status == .completed).toNat,
        o.failed + ((i.judged now ex.verdict).status == .failed).toNat)
      else s.counters id := by
  split_ifs with hhere
  · subst hhere
    rw [processed, (level_rolledUp _ _).counters]
    obtain ⟨-, -, hcompleted, hfailed⟩ :=
      countResolution_counters (i.judged now ex.verdict).status o
    rw [← (i.judged_keeps now ex.verdict).2.1] at ho ⊢
    rw [counters_some (settleItem_order? ho ex.results), hcompleted, hfailed]
  · exact counters_of_order? (processed_order?_of_ne s i now ex hhere)

/-- A retry takes a failure back, at its own order. -/
theorem retry_counters {next : Item} {o : Order} (hok : retry next s = .ok (o, s')) :
    ∃ failedId failed before, next.retryOf = some failedId ∧ s.item? failedId = some failed ∧
      failed.status = .failed ∧ s.isRetried failedId = false ∧
      s.order? failed.orderId = some before ∧ s'.order? failed.orderId = some o ∧
      ∀ id, s'.counters id = if id = failed.orderId then (before.completed, before.failed - 1)
        else s.counters id := by
  obtain ⟨failedId, failed, before, hretry, hfound, hstatus, hfree, hbefore, -, -, rfl, ho⟩ :=
    retry_ok hok
  refine ⟨failedId, failed, before, hretry, hfound, hstatus, hfree, hbefore, ho, fun id => ?_⟩
  have horder : order? { s.updateOrder failed.orderId reopen with items := s.items ++ [next] } id =
      if id = failed.orderId then (s.order? failed.orderId).map reopen else s.order? id :=
    order?_updateOrder reopen_id id
  split_ifs with hhere
  · rw [if_pos hhere, hbefore] at horder
    rw [counters_some horder]
    rfl
  · rw [if_neg hhere] at horder
    exact counters_of_order? horder

/-! Merged orders, and errors of items. -/

theorem retryFrom_error {failed next : Item} {idAt : Nat → String} {now : Time.Timestamp}
    (h : failed.retryFrom idAt now = .ok next) : next.error = none := by
  unfold Item.retryFrom at h
  split at h
  · cases h
    rfl
  · cases h

def MergedSent (s : Store) : Prop :=
  ∀ id, s.merged.contains id = true → ∃ o, s.order? id = some o ∧ o.status ≠ .draft

/-- Orders do not go back to the drafts. -/
theorem MergedSent.carry (hfrozen : s.Frozen s') (hs' : s'.Coherent)
    (hmerged : ∀ id, s'.merged.contains id = true →
      ∃ o, s.order? id = some o ∧ o.status ≠ .draft) : s'.MergedSent := by
  intro id hid
  obtain ⟨o, ho, hsent⟩ := hmerged id hid
  obtain ⟨hmem, rfl⟩ := order?_mem ho
  obtain ⟨o', ho', hsame, hsent', -⟩ := hfrozen.orders o hmem hsent
  exact ⟨o', hsame ▸ hs'.order?_of_mem ho', hsent'⟩

def Blameless (s : Store) : Prop := ∀ i ∈ s.items, i.status = .pending → i.error = none

theorem Blameless.of_items (h : s.Blameless) (hitems : s'.items = s.items) : s'.Blameless :=
  fun i hi => h i (hitems ▸ hi)

theorem Blameless.insert (h : s.Blameless) {item : Item} (hitems : s'.items = s.items ++ [item])
    (hitem : item.error = none) : s'.Blameless := by
  intro i hi hpending
  rw [hitems, List.mem_append, List.mem_singleton] at hi
  rcases hi with hold | rfl
  · exact h i hold hpending
  · exact hitem

theorem Blameless.updateItem (h : s.Blameless) {id : String} {change : Item → Item}
    (hchange : ∀ i ∈ s.items, i.id = id → (change i).status = .pending →
      i.status = .pending ∧ (change i).error = i.error) : (s.updateItem id change).Blameless := by
  intro i hi hpending
  obtain ⟨before, hbefore, ⟨hid, rfl⟩ | ⟨-, rfl⟩⟩ := updateItem_cases hi
  · obtain ⟨hwas, hsame⟩ := hchange before hbefore hid hpending
    rw [hsame]
    exact h before hbefore hwas
  · exact h _ hbefore hpending

end Store

namespace Service

open Procedure

variable {policy : Policy} {d : Desk}

theorem blameless_spansAll : SpansAll fun s s' => s.Blameless → s'.Blameless where
  refl _ h := h
  trans h h' hs := h' (h hs)
  createOrder hok h := by
    obtain ⟨-, rfl⟩ := Store.createOrder_ok hok
    exact h.of_items rfl
  addItem hok h := by
    obtain ⟨-, -, -, -, -, rfl⟩ := Store.addItem_ok hok
    exact h.insert rfl rfl
  attachFile hok h := by
    obtain ⟨-, -, -, -, -, -, -, rfl⟩ := Store.attachFile_ok hok
    exact h.updateItem fun i _ _ hpending => ⟨hpending, rfl⟩
  setMappingKeys hok h := by
    obtain ⟨-, rfl⟩ := Store.setMappingKeys_ok hok
    exact h.of_items rfl
  setMappingFile hok h := by
    obtain rfl := Store.setMappingFile_ok hok
    exact h.of_items rfl
  noteError hok h := by
    obtain rfl := Store.noteError_ok hok
    exact h.of_items rfl
  setReportPaths hok h := by
    obtain rfl := Store.setReportPaths_ok hok
    exact h.of_items rfl
  submit hok h := by
    obtain ⟨-, -, -, -, -, rfl⟩ := Store.submit_ok hok
    exact h.of_items rfl
  moveOrder hok h := by
    obtain ⟨-, ⟨-, -, -, -, rfl⟩ | ⟨-, rfl⟩⟩ := Store.moveOrder_ok hok
    · exact h.of_items rfl
    · exact h
  rollUp hok h := by
    obtain ⟨-, -, ⟨-, -, -, -, rfl⟩ | ⟨-, rfl⟩⟩ := Store.rollUp_ok hok
    · exact h.of_items rfl
    · exact h
  saveMerged hok h := by
    obtain ⟨-, rfl⟩ := Store.saveMerged_ok hok
    exact h.of_items rfl
  retry _ hnext hok h := by
    obtain ⟨-, -, -, -, -, -, -, -, -, -, rfl, -⟩ := Store.retry_ok hok
    exact h.insert rfl (Store.retryFrom_error hnext)
  begin hok h := by
    obtain ⟨-, -, ⟨-, -, rfl⟩ | ⟨-, -, rfl⟩⟩ := Store.begin_ok hok
    · exact h.updateItem fun i _ _ hpending => nomatch hpending
    · exact h
  putResult hok h := h.of_items (Store.putResult_ok hok).2.1
  resolve {_ _ held _} hok h := by
    obtain ⟨hfinal, -, rfl, -⟩ := Store.resolve_ok hok
    refine Store.Blameless.of_items (h.updateItem fun i _ _ hpending => ?_) rfl
    -- a settled item has the status it was resolved with
    have hopen : held.status = .pending := hpending
    rw [hopen] at hfinal
    cases hfinal

namespace Call

/-- Whether a call is one of those that may change what orders count, or what is merged. -/
def Reckons : Call → Prop
  | .processItem _ | .retryItem _ | .runMerge _ => True
  | _ => False

theorem level (policy : Policy) {c : Call} (hc : ¬ c.Reckons) :
    d.store.Level (c.after policy d).store := by
  refine keeps_of_issues ⟨.refl, .trans⟩ fun hmay hok => ?_
  cases hmay with
  | createOrder name id =>
    obtain ⟨_, hok⟩ := Store.map_snd_eq_ok.mp hok
    exact Store.level_createOrder hok
  | addItem order company documentType name id now =>
    obtain ⟨_, hok⟩ := Store.map_snd_eq_ok.mp hok
    obtain ⟨-, -, -, -, -, hs⟩ := Store.addItem_ok hok
    rw [hs]
    exact ⟨Store.counters_updateOrder fun _ => ⟨rfl, rfl, rfl⟩, rfl⟩
  | uploadFile item role filename content id owner reference =>
    obtain ⟨_, hok⟩ := Store.map_snd_eq_ok.mp hok
    obtain ⟨i, o, -, -, -, -, -, hs⟩ := Store.attachFile_ok hok
    rw [hs]
    exact .of_orders rfl rfl
  | attachFile file =>
    obtain ⟨_, hok⟩ := Store.map_snd_eq_ok.mp hok
    obtain ⟨i, o, -, -, -, -, -, hs⟩ := Store.attachFile_ok hok
    rw [hs]
    exact .of_orders rfl rfl
  | setMappingKeys order hkeys =>
    obtain ⟨_, hok⟩ := Store.map_snd_eq_ok.mp hok
    rw [(Store.setMappingKeys_ok hok).2]
    exact .updateOrder fun _ => ⟨rfl, rfl, rfl⟩
  | uploadMappingFile order filename content reference =>
    obtain ⟨_, hok⟩ := Store.map_snd_eq_ok.mp hok
    rw [Store.setMappingFile_ok hok]
    exact .updateOrder fun _ => ⟨rfl, rfl, rfl⟩
  | submit order =>
    obtain ⟨_, hok⟩ := Store.map_snd_eq_ok.mp hok
    obtain ⟨-, -, -, -, -, hs⟩ := Store.submit_ok hok
    rw [hs]
    exact .updateOrder fun _ => ⟨rfl, rfl, rfl⟩
  | rollup order snapshot target =>
    obtain ⟨_, hok⟩ := Store.map_snd_eq_ok.mp hok
    obtain ⟨-, -, ⟨-, -, -, -, hs⟩ | ⟨-, hs⟩⟩ := Store.rollUp_ok hok
    · rw [hs]
      exact .updateOrder fun _ => ⟨rfl, rfl, rfl⟩
    · rw [hs]
      exact .refl _
  | exportReport order paths =>
    obtain ⟨_, hok⟩ :=
      (Store.map_snd_eq_ok (x := Store.setReportPaths order paths _)).mp hok
    rw [Store.setReportPaths_ok hok]
    exact .updateOrder fun _ => ⟨rfl, rfl, rfl⟩
  | begin item now => exact absurd trivial hc
  | putResult item result => exact absurd trivial hc
  | resolve item held => exact absurd trivial hc
  | rollUpProcessed item snapshot target => exact absurd trivial hc
  | retryItem item hnext => exact absurd trivial hc
  | saveMerged order id table => exact absurd trivial hc
  | noteError order id error => exact absurd trivial hc
  | complete order id => exact absurd trivial hc

end Call

end Service

end Collate
