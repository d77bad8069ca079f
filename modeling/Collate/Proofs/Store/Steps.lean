import Collate.Store.Items
import Collate.Store.Mapping
import Collate.Store.Orders

/-!
What an accepted operation does to a store. Each operation has one lemma that
lists everything its success says: what was found, what was checked and the
store it leaves. Refused operations leave the store as it was.
-/

namespace Collate

variable {ε ε' α β : Type}

theorem Except.bind_eq_ok {x : Except ε α} {f : α → Except ε β} {b : β} :
    (x >>= f) = .ok b ↔ ∃ a, x = .ok a ∧ f a = .ok b := by
  cases x with
  | error e => simp [bind, Except.bind]
  | ok a => simp [bind, Except.bind]

theorem Except.bind_eq_error {x : Except ε α} {f : α → Except ε β} {e : ε} :
    (x >>= f) = .error e ↔ x = .error e ∨ ∃ a, x = .ok a ∧ f a = .error e := by
  cases x with
  | error e' => simp [bind, Except.bind]
  | ok a => simp [bind, Except.bind]

theorem Except.mapError_eq_ok {x : Except ε α} {f : ε → ε'} {a : α} :
    x.mapError f = .ok a ↔ x = .ok a := by
  cases x with
  | error e => exact ⟨nofun, nofun⟩
  | ok b =>
    constructor
    · rintro ⟨⟩
      rfl
    · rintro ⟨⟩
      rfl

theorem Except.mapError_eq_error {x : Except ε α} {f : ε → ε'} {e' : ε'} :
    x.mapError f = .error e' ↔ ∃ e, x = .error e ∧ f e = e' := by
  cases x with
  | error e =>
    constructor
    · rintro ⟨⟩
      exact ⟨e, rfl, rfl⟩
    · rintro ⟨e, ⟨⟩, rfl⟩
      rfl
  | ok b => exact ⟨nofun, nofun⟩

/-- A fault about an order or an item is one of the store; a value stays. -/
theorem liftFault_eq_ok {x : Except OrderFault α} {a : α} :
    (liftM x : Except StoreFault α) = .ok a ↔ x = .ok a :=
  Except.mapError_eq_ok

theorem Order.require_eq_ok {o : Order} {allowed : List OrderStatus} {operation : Operation}
    {u : Unit} : o.require allowed operation = .ok u ↔ o.status ∈ allowed := by
  unfold require
  split <;> simp_all

theorem Order.ensureLeadsTo_eq_ok {o : Order} {target : OrderStatus} {u : Unit} :
    o.ensureLeadsTo target = .ok u ↔ o.status.leadsTo target = true := by
  unfold ensureLeadsTo
  split <;> simp_all

namespace Store

variable {s s' : Store}

theorem order_eq_ok {id : String} {o : Order} : s.order id = .ok o ↔ s.order? id = some o := by
  unfold order
  cases s.order? id <;> simp

theorem item_eq_ok {id : String} {i : Item} : s.item id = .ok i ↔ s.item? id = some i := by
  unfold item
  cases s.item? id <;> simp

theorem order?_mem {id : String} {o : Order} (h : s.order? id = some o) :
    o ∈ s.orders ∧ o.id = id :=
  ⟨List.mem_of_find?_eq_some h, by simpa using List.find?_some h⟩

theorem item?_mem {id : String} {i : Item} (h : s.item? id = some i) :
    i ∈ s.items ∧ i.id = id :=
  ⟨List.mem_of_find?_eq_some h, by simpa using List.find?_some h⟩

theorem item?_eq_none {id : String} : s.item? id = none ↔ ∀ i ∈ s.items, i.id ≠ id := by
  simp [item?]

theorem order?_eq_none {id : String} : s.order? id = none ↔ ∀ o ∈ s.orders, o.id ≠ id := by
  simp [order?]

@[simp] theorem updateOrder_items (id : String) (change : Order → Order) :
    (s.updateOrder id change).items = s.items := rfl

theorem isRetried_iff {id : String} :
    s.isRetried id = true ↔ ∃ i ∈ s.items, i.retryOf = some id := by
  simp [isRetried]

/-- Looking for a key in rows of which those of one key were changed. -/
theorem find?_changed {α : Type} {rows : List α} {key : α → String} {id : String} {change : α → α}
    (hkey : ∀ a ∈ rows, key a = id → key (change a) = id) (other : String) :
    (rows.map fun a => if key a == id then change a else a).find? (key · == other) =
      if other = id then (rows.find? (key · == id)).map change
      else rows.find? (key · == other) := by
  induction rows with
  | nil => simp
  | cons a rest ih =>
    have hrest := ih fun b hb => hkey b (by simp [hb])
    rw [List.map_cons, List.find?_cons, List.find?_cons, List.find?_cons, hrest]
    by_cases hhere : key a = id
    · have hchanged := hkey a (by simp) hhere
      by_cases hother : other = id
      · simp [hhere, hother, hchanged]
      · have hne : (id == other) = false := by simpa using Ne.symm hother
        simp [hhere, hother, hchanged, hne]
    · have hne : (key a == id) = false := by simpa using hhere
      by_cases hother : other = id
      · simp [hne, hother]
      · simp [hne, hother]

theorem order?_updateOrder {id : String} {change : Order → Order}
    (hid : ∀ o, (change o).id = o.id) (other : String) :
    (s.updateOrder id change).order? other =
      if other = id then (s.order? id).map change else s.order? other :=
  find?_changed (fun o _ h => (hid o).trans h) other

theorem item?_updateItem {id : String} {change : Item → Item}
    (hid : ∀ i ∈ s.items, i.id = id → (change i).id = id) (other : String) :
    (s.updateItem id change).item? other =
      if other = id then (s.item? id).map change else s.item? other :=
  find?_changed hid other

/-! Orders. -/

theorem createOrder_ok {o : Order} (h : createOrder o s = .ok ((), s')) :
    s.order? o.id = none ∧ s' = { s with orders := s.orders ++ [o] } := by
  unfold createOrder at h
  split at h
  · simp at h
  · rename_i hnone
    simp only [Except.ok.injEq, Prod.mk.injEq, true_and] at h
    exact ⟨by simpa using hnone, h.symm⟩

theorem setMappingKeys_ok {id : String} {keys : List String}
    (h : setMappingKeys id keys s = .ok ((), s')) :
    (∃ o, s.order? id = some o ∧ o.status = .draft) ∧
      s' = s.updateOrder id fun o => { o with mappingKeys := some keys } := by
  simp only [setMappingKeys, Except.bind_eq_ok, liftFault_eq_ok, order_eq_ok,
    Order.require_eq_ok, Except.ok.injEq, Prod.mk.injEq, true_and] at h
  obtain ⟨o, ho, u, hdraft, rfl⟩ := h
  exact ⟨⟨o, ho, by simpa using hdraft⟩, rfl⟩

theorem setMappingFile_ok {id reference : String}
    (h : setMappingFile id reference s = .ok ((), s')) :
    s' = s.updateOrder id fun o => { o with mappingFile := some reference } := by
  simp only [setMappingFile, Except.bind_eq_ok, Except.ok.injEq, Prod.mk.injEq, true_and] at h
  obtain ⟨o, -, u, -, rfl⟩ := h
  rfl

theorem submit_ok {id : String} {pending : List String} (h : submit id s = .ok (pending, s')) :
    ∃ o, s.order? id = some o ∧ o.status = .draft ∧ o.total ≠ 0 ∧
      pending = ((s.itemsOf id).filter (·.status == .pending)).map (·.id) ∧
      s' = s.updateOrder id fun o => { o with status := .processing } := by
  simp only [submit, Except.bind_eq_ok, liftFault_eq_ok, order_eq_ok, Order.require_eq_ok] at h
  obtain ⟨o, ho, u, hdraft, h⟩ := h
  split at h
  · simp at h
  · rename_i htotal
    simp only [Except.ok.injEq, Prod.mk.injEq] at h
    exact ⟨o, ho, by simpa using hdraft, htotal, h.1.symm, h.2.symm⟩

theorem moveOrder_ok {id : String} {source target : OrderStatus} {moved : Bool}
    (h : moveOrder id source target s = .ok (moved, s')) :
    source.leadsTo target = true ∧
      ((moved = true ∧ ∃ o, s.order? id = some o ∧ o.status = source ∧
        s' = s.updateOrder id fun o => { o with status := target }) ∨
      (moved = false ∧ s' = s)) := by
  unfold moveOrder at h
  split at h
  · rename_i hleads
    refine ⟨hleads, ?_⟩
    split at h
    · rename_i o ho
      split at h
      · rename_i hstatus
        simp only [Except.ok.injEq, Prod.mk.injEq] at h
        exact Or.inl ⟨h.1.symm, o, ho, hstatus, h.2.symm⟩
      · simp only [Except.ok.injEq, Prod.mk.injEq] at h
        exact Or.inr ⟨h.1.symm, h.2.symm⟩
    · simp only [Except.ok.injEq, Prod.mk.injEq] at h
      exact Or.inr ⟨h.1.symm, h.2.symm⟩
  · simp at h

theorem rollUp_ok {snapshot : Order} {target : OrderStatus} {moved : Bool}
    (h : rollUp snapshot target s = .ok (moved, s')) :
    snapshot.status = .processing ∧ snapshot.status.leadsTo target = true ∧
      ((moved = true ∧ ∃ o, s.order? snapshot.id = some o ∧ standsAs o snapshot = true ∧
        s' = s.updateOrder snapshot.id fun o => { o with status := target }) ∨
      (moved = false ∧ s' = s)) := by
  simp only [rollUp, Except.bind_eq_ok, liftFault_eq_ok, Order.require_eq_ok,
    Order.ensureLeadsTo_eq_ok] at h
  obtain ⟨u, hprocessing, v, hleads, h⟩ := h
  refine ⟨by simpa using hprocessing, hleads, ?_⟩
  split at h
  · rename_i o ho
    split at h
    · rename_i hstands
      simp only [Except.ok.injEq, Prod.mk.injEq] at h
      exact Or.inl ⟨h.1.symm, o, ho, hstands, h.2.symm⟩
    · simp only [Except.ok.injEq, Prod.mk.injEq] at h
      exact Or.inr ⟨h.1.symm, h.2.symm⟩
  · simp only [Except.ok.injEq, Prod.mk.injEq] at h
    exact Or.inr ⟨h.1.symm, h.2.symm⟩

theorem noteError_ok {id : String} {error : Option String}
    (h : noteError id error s = .ok ((), s')) :
    s' = s.updateOrder id fun o => { o with error } := by
  simpa [noteError, eq_comm] using h

theorem setReportPaths_ok {id : String} {paths : List String}
    (h : setReportPaths id paths s = .ok ((), s')) :
    s' = s.updateOrder id fun o => { o with reportPaths := paths } := by
  simpa [setReportPaths, eq_comm] using h

theorem saveMerged_ok {id : String} {table : Merged} (h : saveMerged id table s = .ok ((), s')) :
    (∃ o, s.order? id = some o) ∧ s' = { s with merged := s.merged.insert id table } := by
  unfold saveMerged at h
  split at h
  · simp at h
  · rename_i horder
    simp only [Except.ok.injEq, Prod.mk.injEq, true_and] at h
    refine ⟨?_, h.symm⟩
    rw [← Option.ne_none_iff_exists']
    simpa using horder

/-! Templates and bindings. -/

/-- Saving a template changes templates only. -/
theorem saveTemplate_ok {t : Template} {id : Int} (h : saveTemplate t s = .ok (id, s')) :
    s'.orders = s.orders ∧ s'.items = s.items ∧ s'.merged = s.merged := by
  simp only [saveTemplate, Except.bind_eq_ok] at h
  obtain ⟨u, -, h⟩ := h
  split at h
  · simp only [Except.ok.injEq, Prod.mk.injEq] at h
    simp [← h.2]
  · simp only [Except.ok.injEq, Prod.mk.injEq] at h
    simp [← h.2]

/-- Saving a binding changes bindings only. -/
theorem saveBinding_ok {b : Binding} (h : saveBinding b s = .ok ((), s')) :
    s'.orders = s.orders ∧ s'.items = s.items ∧ s'.merged = s.merged := by
  unfold saveBinding at h
  split at h
  · simp only [Except.ok.injEq, Prod.mk.injEq, true_and] at h
    simp [← h]
  · simp only [Except.ok.injEq, Prod.mk.injEq, true_and] at h
    simp [← h]

/-! Items. -/

/-- What an item has to satisfy to be put in. -/
structure Admits (s : Store) (item : Item) : Prop where
  untried : ∀ i ∈ s.items, item.retryOf.isSome = true → i.retryOf ≠ item.retryOf
  new : s.item? item.id = none
  ordered : ∃ o, s.order? item.orderId = some o
  known : ∀ failed, item.retryOf = some failed → failed ≠ item.id → ∃ i, s.item? failed = some i
  files : s.freshFiles item.files = .ok ()

theorem insertItem_ok {item : Item} (h : insertItem item s = .ok s') :
    s.Admits item ∧ s' = { s with items := s.items ++ [item] } := by
  unfold insertItem at h
  split at h
  · simp at h
  · rename_i hunique
    split at h
    · simp at h
    · rename_i hnew
      split at h
      · simp at h
      · rename_i horder
        split at h
        · simp at h
        · rename_i hretried
          simp only [Except.bind_eq_ok, Except.ok.injEq] at h
          obtain ⟨u, hfiles, rfl⟩ := h
          refine ⟨⟨?_, by simpa using hnew, ?_, ?_, hfiles⟩, rfl⟩
          · intro i hi hsome heq
            have hany : s.items.any (·.retryOf == item.retryOf) = true :=
              List.any_eq_true.mpr ⟨i, hi, by simp [heq]⟩
            exact hunique (by simp [hsome, hany])
          · rw [← Option.ne_none_iff_exists']
            simpa using horder
          · intro failed hfailed hne
            rw [← Option.ne_none_iff_exists']
            simpa [hfailed, hne] using hretried

theorem addItem_ok {item : Item} (h : addItem item s = .ok ((), s')) :
    ∃ o, s.order? item.orderId = some o ∧ o.status = .draft ∧ item.status = .pending ∧
      s.Admits item ∧ s' = ({ s with items := s.items ++ [item] }).updateOrder item.orderId
        fun o => { o with total := o.total + 1 } := by
  simp only [addItem, Except.bind_eq_ok, liftFault_eq_ok, order_eq_ok, Order.require_eq_ok] at h
  obtain ⟨o, ho, u, hdraft, h⟩ := h
  split at h
  · rename_i hpending
    simp only [Except.bind_eq_ok, Except.ok.injEq, Prod.mk.injEq, true_and] at h
    obtain ⟨t, ht, rfl⟩ := h
    obtain ⟨hadmits, rfl⟩ := insertItem_ok ht
    rw [(order?_mem ho).2]
    exact ⟨o, ho, by simpa using hdraft, hpending, hadmits, rfl⟩
  · simp at h

theorem attachFile_ok {file : FileRef} (h : attachFile file s = .ok ((), s')) :
    ∃ i o, s.item? file.itemId = some i ∧ s.order? i.orderId = some o ∧
      o.status ∈ [.draft, .processing] ∧ i.status.isFinal = false ∧
      s.freshFiles [file] = .ok () ∧
      s' = s.updateItem i.id fun i => { i with files := i.files ++ [file] } := by
  simp only [attachFile, Except.bind_eq_ok, liftFault_eq_ok, item_eq_ok, order_eq_ok,
    Order.require_eq_ok, Except.ok.injEq, Prod.mk.injEq, true_and] at h
  obtain ⟨i, hi, o, ho, u, hstatus, checked, hchecked, v, hfresh, rfl⟩ := h
  refine ⟨i, o, hi, ho, hstatus, ?_, hfresh, rfl⟩
  unfold Item.withFile at hchecked
  split at hchecked
  · simp at hchecked
  · rename_i hopen
    simpa using hopen

theorem begin_ok {id : String} {now : Time.Timestamp} {started : Option Item}
    (h : begin id now s = .ok (started, s')) :
    ∃ i, s.item? id = some i ∧
      ((i.status = .pending ∧
          started = some { i with status := .processing, startedAt := some now } ∧
          s' = s.updateItem id fun i => { i with status := .processing, startedAt := some now }) ∨
        (i.status ≠ .pending ∧ started = none ∧ s' = s)) := by
  simp only [begin, Except.bind_eq_ok, liftFault_eq_ok, item_eq_ok] at h
  obtain ⟨i, hi, h⟩ := h
  refine ⟨i, hi, ?_⟩
  split at h
  · rename_i hpending
    simp only [Item.start, hpending, if_true, Except.bind_eq_ok, liftFault_eq_ok, Except.ok.injEq,
      Prod.mk.injEq] at h
    obtain ⟨next, rfl, hstarted, rfl⟩ := h
    exact Or.inl ⟨hpending, hstarted.symm, rfl⟩
  · rename_i hpending
    simp only [Except.ok.injEq, Prod.mk.injEq] at h
    exact Or.inr ⟨hpending, h.1.symm, h.2.symm⟩

theorem putResult_ok {result : ExtractionResult} {put : Bool}
    (h : putResult result s = .ok (put, s')) :
    s'.orders = s.orders ∧ s'.items = s.items ∧ s'.merged = s.merged := by
  unfold putResult at h
  split at h
  · simp only [Except.ok.injEq, Prod.mk.injEq] at h
    simp [← h.2]
  · split at h
    · simp only [Except.ok.injEq, Prod.mk.injEq] at h
      simp [← h.2]
    · simp at h

def settle (held item : Item) : Item :=
  { item with status := held.status, endedAt := held.endedAt, error := held.error }

theorem resolve_ok {held : Item} {o : Order} (h : resolve held s = .ok (o, s')) :
    held.status.isFinal = true ∧ (∃ i, s.item? held.id = some i ∧ i.status = .processing) ∧
      s' = (s.updateItem held.id (settle held)).updateOrder held.orderId
        (countResolution held.status) ∧
      s'.order? held.orderId = some o := by
  unfold resolve at h
  split at h
  · rename_i hfinal
    split at h
    · simp at h
    · rename_i i hi
      split at h
      · rename_i hprocessing
        simp only [Except.bind_eq_ok, liftFault_eq_ok, order_eq_ok, Except.ok.injEq,
          Prod.mk.injEq] at h
        obtain ⟨found, hfound, rfl, rfl⟩ := h
        exact ⟨hfinal, ⟨i, hi, hprocessing⟩, rfl, hfound⟩
      · simp at h
  · simp at h

/-- The next try of an item is pending, belongs to the same order and has files
of its own. -/
theorem retryFrom_ok {failed next : Item} {idAt : Nat → String} {now : Time.Timestamp}
    (h : failed.retryFrom idAt now = .ok next) :
    next.orderId = failed.orderId ∧ next.status = .pending ∧ next.retryOf = some failed.id ∧
      ∀ f ∈ next.files, f.itemId = next.id := by
  unfold Item.retryFrom at h
  split at h
  · rw [Except.ok.injEq] at h
    subst h
    refine ⟨rfl, rfl, rfl, ?_⟩
    intro f hf
    obtain ⟨n, hn, rfl⟩ := List.mem_mapIdx.mp hf
    rfl
  · cases h

/-- What a retry changes at the order whose slot it takes. -/
def reopen (o : Order) : Order :=
  releaseFailed { o with status := if o.status = .failed then .processing else o.status }

theorem retry_ok {next : Item} {o : Order} (h : retry next s = .ok (o, s')) :
    ∃ failedId failed before, next.retryOf = some failedId ∧ s.item? failedId = some failed ∧
      failed.status = .failed ∧ s.isRetried failedId = false ∧
      s.order? failed.orderId = some before ∧ before.status ∈ [.processing, .failed] ∧
      (s.updateOrder failed.orderId reopen).Admits next ∧
      s' = { s.updateOrder failed.orderId reopen with items := s.items ++ [next] } ∧
      s'.order? failed.orderId = some o := by
  unfold retry at h
  split at h
  · simp at h
  · rename_i failedId hretry
    simp only [Except.bind_eq_ok, liftFault_eq_ok, item_eq_ok] at h
    obtain ⟨failed, hfailed, h⟩ := h
    split at h
    · simp at h
    · rename_i hretriable
      rw [not_or, Decidable.not_not] at hretriable
      simp only [Except.bind_eq_ok, liftFault_eq_ok, order_eq_ok, Order.require_eq_ok,
        Except.ok.injEq, Prod.mk.injEq] at h
      obtain ⟨before, hbefore, u, hstatus, t, ht, found, hfound, rfl, rfl⟩ := h
      obtain ⟨hadmits, rfl⟩ := insertItem_ok ht
      rw [(order?_mem hbefore).2] at hadmits hfound ⊢
      exact ⟨failedId, failed, before, hretry, hfailed, hretriable.1, by simpa using hretriable.2,
        hbefore, hstatus, hadmits, rfl, hfound⟩

end Store

end Collate
