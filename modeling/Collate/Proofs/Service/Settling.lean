import Collate.Proofs.Service.Intake
import Collate.Proofs.Store.Change

/-!
Calls that move orders on. Submitting, processing, rolling up, retrying and
merging each take at most one order one step on, and leave a steady store steady
whether they succeed or fail on the way. The calls that ask for items to be
processed ask only for items of orders that were submitted.
-/

namespace Collate

namespace Store

variable {s s' : Store}

/-- An item of an order that was submitted. -/
def Sent (s : Store) (item : String) : Prop :=
  ∃ i ∈ s.items, i.id = item ∧ ∀ o ∈ s.orders, o.id = i.orderId → o.status ≠ .draft

/-- What was submitted stays so. -/
theorem Sent.follows {item : String} (h : s.Sent item) (hs : s.Coherent) (hs' : s'.Coherent)
    (hfollows : s.Follows OrderStatus.Moves s') : s'.Sent item := by
  obtain ⟨i, hi, hid, hsent⟩ := h
  obtain ⟨i', hi', hid', horder'⟩ := hfollows.items i hi
  refine ⟨i', hi', hid'.trans hid, ?_⟩
  intro o' ho' horder
  obtain ⟨o, ho, hoid⟩ := List.mem_map.mp (hs.placed i hi)
  obtain ⟨after, hafter, hafterId, hmoves⟩ := hfollows.orders o ho
  rw [hs'.order_unique ho' hafter (horder.trans (horder'.trans (hoid.symm.trans hafterId.symm)))]
  exact hmoves.ne_draft (hsent o ho hoid)

theorem Sent.of_records {item : String} (h : s.Sent item) (horders : s'.orders = s.orders)
    (hitems : s'.items = s.items) : s'.Sent item := by
  rw [Sent, horders, hitems]
  exact h

/-- What decides where an order goes that was read, from items that were listed
and the plans on record. -/
def rollupFacts (s : Store) (o : Order) (items : List Item) : RollupFacts :=
  let completed := items.filter (·.status == .completed)
  Service.factsOf o completed (o.mappingKeys.isSome ||
    completed.any fun i => (s.plan? i.company i.documentType i.itemType).isSome)

theorem plan?_congr (htemplates : s'.templates = s.templates) (hbindings : s'.bindings = s.bindings)
    (company documentType : String) (itemType : ItemType) :
    s'.plan? company documentType itemType = s.plan? company documentType itemType := by
  have htemplate : s'.template? = s.template? := by
    funext id
    rw [template?, template?, htemplates]
  rw [plan?, plan?, htemplate, binding?, binding?, hbindings, bestTemplate?, bestTemplate?,
    candidates, candidates, htemplates]

/-- Of the items only the completed ones matter to where an order goes, and of
these only what plans and files they have. -/
theorem rollupFacts_congr (htemplates : s'.templates = s.templates)
    (hbindings : s'.bindings = s.bindings) {o now : Order}
    (hkeys : now.mappingKeys = o.mappingKeys)
    (hcounters : now.total = o.total ∧ now.completed = o.completed ∧ now.failed = o.failed)
    {items items' : List Item} (hany : ∀ p : String → String → List FileRef → Bool,
      (items'.filter (·.status == .completed)).any (fun i => p i.company i.documentType i.files) =
        (items.filter (·.status == .completed)).any
          fun i => p i.company i.documentType i.files) :
    s'.rollupFacts now items' = s.rollupFacts o items := by
  have hplans := hany fun company documentType files => (s.plan? company documentType
    (.forAttachments (files.filter fun f => f.role == .attachment).length)).isSome
  have hprimary := hany fun _ _ files => (files.find? fun f => f.role == .primary).isSome
  have hattachments := hany fun _ _ files => !(files.filter fun f => f.role == .attachment).isEmpty
  obtain ⟨htotal, hcompleted, hfailed⟩ := hcounters
  simp only [rollupFacts, Service.factsOf, Item.itemType, Item.primaryFile?, Item.attachments,
    plan?_congr htemplates hbindings, hplans, hprimary, hattachments, hkeys, htotal, hcompleted,
    hfailed]

/-- The store once an order was rolled up, if that is due. -/
def rolledUp (s : Store) (id : String) : Store :=
  match s.order? id with
  | none => s
  | some o =>
    if o.status = .processing ∧ o.allResolved = true then
      match (s.rollupFacts o (s.itemsOf id)).target? with
      | none => s
      | some target => s.updateOrder id fun o => { o with status := target }
    else s

theorem rolledUp_cases (s : Store) (id : String) :
    s.rolledUp id = s ∨ ∃ o target, s.order? id = some o ∧ o.status = .processing ∧
      (s.rollupFacts o (s.itemsOf id)).target? = some target ∧
      s.rolledUp id = s.updateOrder id fun o => { o with status := target } := by
  cases ho : s.order? id with
  | none => simp [rolledUp, ho]
  | some o =>
    by_cases hdue : o.status = .processing ∧ o.allResolved = true
    · cases htarget : (s.rollupFacts o (s.itemsOf id)).target? with
      | none => simp [rolledUp, ho, htarget]
      | some target =>
        refine Or.inr ⟨o, target, rfl, hdue.1, htarget, ?_⟩
        simp [rolledUp, ho, hdue, htarget]
    · simp [rolledUp, ho, hdue]

theorem rolledUp_idle {o : Order} (ho : s.order? o.id = some o)
    (hidle : ¬ (o.status = .processing ∧ o.allResolved = true)) : s.rolledUp o.id = s := by
  rw [rolledUp, ho]
  exact if_neg hidle

theorem rolledUp_resolved {o : Order} (ho : s.order? o.id = some o)
    (hprocessing : o.status = .processing) (hresolved : o.allResolved = true) : ∃ target,
      (s.rollupFacts o (s.itemsOf o.id)).target? = some target ∧
        s.rolledUp o.id = s.updateOrder o.id fun o => { o with status := target } := by
  have hcounters := hresolved
  simp only [Order.allResolved, Order.resolved, Bool.and_eq_true, decide_eq_true_iff,
    beq_iff_eq] at hcounters
  obtain ⟨target, htarget⟩ := RollupFacts.exists_target
    (show 0 < (s.rollupFacts o (s.itemsOf o.id)).total from hcounters.1) hcounters.2
  refine ⟨target, htarget, ?_⟩
  simp [rolledUp, ho, hprocessing, hresolved, htarget]

theorem mem_itemsOf {order : String} {i : Item} :
    i ∈ s.itemsOf order ↔ i ∈ s.items ∧ i.orderId = order := by
  simp [itemsOf, List.mem_mergeSort]

theorem Coherent.order?_placed (h : s.Coherent) {i : Item} (hi : i ∈ s.items) :
    ∃ o, s.order? i.orderId = some o := h.keyed.order?_placed hi

theorem Steady.retry_sent (h : s.Steady) {next : Item} {o : Order}
    (hok : Store.retry next s = .ok (o, s'))
    (hplace : ∀ i ∈ s.items, next.retryOf = some i.id → i.orderId = next.orderId) :
    s'.Sent next.id := by
  obtain ⟨failedId, failed, before, hretry, hfound, -, -, hbefore, hstatus, -, rfl, -⟩ :=
    retry_ok hok
  obtain ⟨hfailed, rfl⟩ := item?_mem hfound
  obtain ⟨hbmem, hbid⟩ := order?_mem hbefore
  refine ⟨next, by simp, rfl, ?_⟩
  intro after hafter horder
  obtain ⟨other, hother, ⟨hhere, rfl⟩ | ⟨hhere, rfl⟩⟩ := updateOrder_cases hafter
  · rw [h.order_unique hother hbmem (hhere.trans hbid.symm)]
    rcases List.mem_cons.mp hstatus with hprocessing | hfailing
    · simp [reopen, releaseFailed, hprocessing]
    · simp [reopen, releaseFailed, List.mem_singleton.mp hfailing]
  · exact absurd (horder.trans (hplace failed hfailed hretry).symm) hhere

/-- An order in processing is due, if it is not empty. -/
theorem Steady.due (h : s.Steady) {o : Order} (ho : o ∈ s.orders)
    (hprocessing : o.status = .processing) (hpos : 0 < o.total) : s.Due o.id := by
  refine ⟨h.toBalanced, h.idle, fun other hother _ => h.settled other hother, ?_⟩
  intro other hother hid
  rw [h.order_unique hother ho hid]
  exact ⟨hprocessing, hpos⟩

/-- Rolling up an order that is due settles it. -/
theorem Due.rolledUp {o : Order} (h : s.Due o.id) (ho : s.order? o.id = some o) :
    (s.rolledUp o.id).Steady ∧ s.Follows OrderStatus.Moves (s.rolledUp o.id) := by
  obtain ⟨homem, -⟩ := order?_mem ho
  by_cases hresolved : o.allResolved = true
  · obtain ⟨target, htarget, hmoves⟩ :=
      rolledUp_resolved ho (h.processing o homem rfl).1 hresolved
    rw [hmoves]
    exact h.rolled homem ⟨rfl, rfl, rfl⟩ htarget
  · rw [rolledUp_idle ho fun hboth => hresolved hboth.2]
    refine ⟨h.steady ?_, .of_records (fun _ => Or.inl rfl) rfl rfl⟩
    intro other hother hid
    rw [h.order_unique hother homem hid]
    simpa using hresolved

end Store

namespace Service

open Procedure

variable {policy : Policy} {d d' : Desk}

theorem announceOrder_goes (policy : Policy) (id : String) (phase : Phase) (message : String) :
    (announceOrder policy id phase message).Keeps Store.Goes :=
  (Performs.announceOrder policy id phase message).keeps_of_silent goes_gathers

theorem noteError_goes (id : String) (error : Option String) :
    (Procedure.store (Store.noteError id error)).Keeps Store.Goes :=
  Keeps.store goes_gathers goes_covers.noteError

/-- Announcing an order leaves the records alone, whatever is given then. -/
theorem sameRecords_of_announced {α : Type} {id message : String} {phase : Phase} {a : α}
    {r : Except ServiceFault α} (hrun : (announceOrder policy id phase message >>= fun _ =>
      (pure a : Procedure α)).run d = (r, d')) : d.store.SameRecords d'.store := by
  have hkept := (Performs.announceOrder policy id phase message).keeps_of_silent
    sameRecords_gathers d
  rw [run_bind_pure, Prod.mk.injEq] at hrun
  rw [hrun.2] at hkept
  exact hkept

/-! Submitting. -/

theorem submit_advances (policy : Policy) (order : String) :
    (submit policy order).Keeps Store.Advances := by
  refine Keeps.goes_after ?_ fun pending => Performs.keeps_of_silent
    (Acts.bind (Performs.announceOrder policy order _ _) fun _ => trivial) goes_gathers
  intro d
  cases hop : Store.submit order d.store with
  | error fault =>
    rw [run_store_error hop]
    exact (Store.Goes.refl _).advances
  | ok result =>
    rw [run_store_ok (a := result.1) (s := result.2) hop]
    exact fun hsteady => hsteady.submit hop

/-- What a submission that is accepted does. -/
theorem submit_run {order : String} {ids : List String}
    (hrun : (submit policy order).run d = (.ok ids, d')) :
    (∃ o, d.store.order? order = some o ∧ o.status = .draft ∧ o.total ≠ 0) ∧
      ids = ((d.store.itemsOf order).filter (·.status == .pending)).map (·.id) ∧
      d'.store.orders =
        (d.store.updateOrder order fun o => { o with status := .processing }).orders ∧
      d'.store.items = d.store.items := by
  unfold submit at hrun
  obtain ⟨pending, e, hstore, hrest⟩ := run_bind_eq_ok hrun
  obtain ⟨o, ho, hdraft, htotal, hpending, hs⟩ := Store.submit_ok (store_ok hstore)
  have hsame : e.store.SameRecords d'.store := sameRecords_of_announced hrest
  obtain ⟨u, e', -, hlast⟩ := run_bind_eq_ok hrest
  cases hlast
  refine ⟨⟨o, ho, hdraft, htotal⟩, hpending, ?_, ?_⟩
  · rw [hsame.orders, hs]
  · rw [hsame.items, hs]
    rfl

/-- The items that a submission asks for belong to the order submitted. -/
theorem submit_sent {order : String} {ids : List String}
    (hrun : (submit policy order).run d = (.ok ids, d')) : ∀ id ∈ ids, d'.store.Sent id := by
  obtain ⟨-, rfl, horders, hitems⟩ := submit_run hrun
  intro id hid
  obtain ⟨i, hi, rfl⟩ := List.mem_map.mp hid
  obtain ⟨himem, hiorder⟩ := Store.mem_itemsOf.mp (List.mem_filter.mp hi).1
  refine ⟨i, hitems ▸ himem, rfl, ?_⟩
  intro after hafter horder
  rw [horders] at hafter
  obtain ⟨before, -, ⟨-, rfl⟩ | ⟨hhere, rfl⟩⟩ := Store.updateOrder_cases hafter
  · exact OrderStatus.noConfusion
  · exact absurd (horder.trans hiorder) hhere

/-! Rolling up. -/

theorem run_order_some {id : String} {o : Order} (h : d.store.order? id = some o) :
    (order id).run d = (.ok o, d) := by
  rw [run_order, Store.order_eq_ok.mpr h]
  rfl

/-- An order still stands as in a snapshot that was just taken. -/
theorem rollUp_just_read {s : Store} {o : Order} (ho : s.order? o.id = some o)
    (hprocessing : o.status = .processing) (hresolved : o.allResolved = true)
    {target : OrderStatus} (hleads : OrderStatus.processing.leadsTo target = true) :
    Store.rollUp o target s =
      .ok (true, s.updateOrder o.id fun o => { o with status := target }) := by
  simp only [Order.allResolved, Order.resolved, Bool.and_eq_true, beq_iff_eq] at hresolved
  have hstands : Store.standsAs o o = true := by
    simp [Store.standsAs, hprocessing, hresolved.2]
  have hrequire : o.require [.processing] .rollup = .ok () :=
    Order.require_eq_ok.mpr (by simp [hprocessing])
  have hensure : o.ensureLeadsTo target = .ok () :=
    Order.ensureLeadsTo_eq_ok.mpr (by rw [hprocessing]; exact hleads)
  simp only [Store.rollUp, hrequire, hensure, ho, hstands, if_true]
  rfl

/-- A roll-up moves a resolved order in processing where its facts say. -/
theorem rollup_run (policy : Policy) {o : Order} (ho : d.store.order? o.id = some o)
    (hprocessing : o.status = .processing) (hresolved : o.allResolved = true)
    {target : OrderStatus}
    (htarget : (d.store.rollupFacts o (d.store.itemsOf o.id)).target? = some target) :
    ∃ events, (rollup policy o.id).run d = (.ok (some target), { d with
      store := d.store.updateOrder o.id fun o => { o with status := target }
      events := events }) := by
  have hrolled := rollUp_just_read ho hprocessing hresolved (RollupFacts.leadsTo_target htarget)
  -- the order is still there, so that it can be announced
  have hmoved : (d.store.updateOrder o.id fun o => { o with status := target }).order? o.id =
      some { o with status := target } := by
    rw [Store.order?_updateOrder, if_pos rfl, ho]
    · rfl
    · exact fun _ => rfl
  obtain ⟨events, hannounce⟩ := run_announceOrder policy .statusChanged
    ("Order is " ++ target.name) (d := { d with
      store := d.store.updateOrder o.id fun o => { o with status := target } }) hmoved
  refine ⟨events, ?_⟩
  unfold rollup
  rw [run_bind_ok (run_order_some ho), if_neg (by simp [hprocessing, hresolved]),
    run_bind_ok (run_look _ _)]
  dsimp only
  have hmove : (do
      if ← Procedure.store (Store.rollUp o target) then
        announceOrder policy o.id .statusChanged ("Order is " ++ target.name)
        pure (some target)
      else pure none : Procedure (Option OrderStatus)).run d = (.ok (some target), { d with
        store := d.store.updateOrder o.id fun o => { o with status := target }
        events := events }) := by
    rw [run_bind_ok (run_store_ok hrolled), if_pos rfl, run_bind_ok hannounce]
    rfl
  rw [Store.rollupFacts] at htarget
  -- keys on the order make it resolvable, and else a plan for one of its items
  split
  · rename_i hkeys
    simp only [hkeys, Bool.true_or] at htarget
    rw [run_bind_ok (run_pure _ _), htarget]
    exact hmove
  · rename_i hkeys
    simp only [hkeys, Bool.false_or] at htarget
    rw [run_bind_ok (anyPlan_run _ d), htarget]
    exact hmove

theorem rollup_missing {id : String} (h : d.store.order? id = none) :
    ((rollup policy id).run d).2 = d := by
  have hmissing : (order id).run d = (.error (.order (.orderNotFound id)), d) := by
    rw [run_order, Store.order, h]
    rfl
  rw [rollup, run_bind, hmissing]

/-- A roll-up takes the store where its facts say, or leaves it. -/
theorem rollup_store (policy : Policy) {o : Order} (ho : d.store.order? o.id = some o) :
    ∃ target events, (rollup policy o.id).run d =
      (.ok target, { d with store := d.store.rolledUp o.id, events := events }) := by
  by_cases hready : o.status = .processing ∧ o.allResolved = true
  · obtain ⟨target, htarget, hmoves⟩ := Store.rolledUp_resolved ho hready.1 hready.2
    obtain ⟨events, hrun⟩ := rollup_run policy ho hready.1 hready.2 htarget
    exact ⟨some target, events, by rw [hrun, hmoves]⟩
  · have hnot : (o.status != .processing || !o.allResolved) = true := by
      simpa [Classical.or_iff_not_imp_left] using hready
    refine ⟨none, d.events, ?_⟩
    rw [rollup, run_bind_ok (run_order_some ho), if_pos hnot, Store.rolledUp_idle ho hready]
    rfl

theorem rollup_advances (policy : Policy) (id : String) :
    (rollup policy id).Keeps Store.Advances := by
  intro d hsteady
  cases ho : d.store.order? id with
  | none =>
    rw [rollup_missing ho]
    exact (Store.Goes.refl _).advances hsteady
  | some o =>
    obtain ⟨homem, rfl⟩ := Store.order?_mem ho
    obtain ⟨target, events, hrun⟩ := rollup_store policy ho
    rw [hrun]
    rcases d.store.rolledUp_cases o.id with hsame | ⟨p, target, hp, hprocessing, htarget, heq⟩
    · rw [hsame]
      exact (Store.Goes.refl _).advances hsteady
    · obtain rfl : o = p := Option.some.inj (ho.symm.trans hp)
      have hpos := (RollupFacts.target?_eq_some htarget).1
      rw [heq]
      exact (hsteady.due homem hprocessing hpos).rolled homem ⟨rfl, rfl, rfl⟩ htarget

/-! Processing. -/

/-- What is made of the outcome of examining an item. -/
theorem exists_resolved {started : Item} (h : started.status = .processing)
    (outcome : Except String Unit) (now : Time.Timestamp) :
    ∃ resolved, (match outcome with
        | .ok () => started.complete now
        | .error reason => started.fail reason now : Except OrderFault Item) = .ok resolved ∧
      resolved.id = started.id ∧ resolved.orderId = started.orderId ∧
      resolved.status.isFinal = true := by
  cases outcome with
  | ok u => exact ⟨_, if_pos h, rfl, rfl, rfl⟩
  | error reason => exact ⟨_, if_pos h, rfl, rfl, rfl⟩

/-- What is left to do for an item once it was examined. -/
def resolution (policy : Policy) (id : String) (result : Except OrderFault Item) :
    Procedure (Option Item) := do
  let resolved ← need (result.mapError ServiceFault.order)
  let order ← Procedure.store (Store.resolve resolved)
  announce policy (resolutionEvent order id resolved)
  if order.allResolved then
    let _ ← rollup policy order.id
    pure (some resolved)
  else pure (some resolved)

/-- Resolving an item takes the store to where its order is rolled up. -/
theorem resolution_store (policy : Policy) (id : String) {s : Store} {resolved : Item}
    {after : Order} {result : Except OrderFault Item} (hresult : result = .ok resolved)
    (hresolve : Store.resolve resolved d.store = .ok (after, s))
    (hafter : s.order? after.id = some after) : ∃ events,
      (resolution policy id result).run d =
        (.ok (some resolved), { d with store := s.rolledUp after.id, events := events }) := by
  have hneed : (need (result.mapError ServiceFault.order)).run d = (.ok resolved, d) := by
    rw [run_need, hresult]
    rfl
  obtain ⟨events, hannounce⟩ := run_announce policy (resolutionEvent after id resolved)
    { d with store := s }
  rw [resolution, run_bind_ok hneed, run_bind_ok (run_store_ok hresolve), run_bind_ok hannounce]
  by_cases hall : after.allResolved = true
  · obtain ⟨target, events', hrollup⟩ := rollup_store policy
      (d := { d with store := s, events := events }) hafter
    refine ⟨events', ?_⟩
    rw [if_pos hall, run_bind_ok hrollup]
    rfl
  · refine ⟨events, ?_⟩
    rw [if_neg hall, Store.rolledUp_idle hafter fun hboth => hall hboth.2]
    rfl

/-- Resolving the item being processed settles its order, by a roll-up if it was
the last one. -/
theorem resolution_run {id : String} {resolved : Item} {r : Except ServiceFault (Option Item)}
    {result : Except OrderFault Item} (hresult : result = .ok resolved)
    (hbusy : d.store.Busy resolved.id resolved.orderId) (hfinal : resolved.status.isFinal = true)
    (hrun : (resolution policy id result).run d = (r, d')) :
    d'.store.Steady ∧ d.store.Follows OrderStatus.Moves d'.store := by
  obtain ⟨after, s, hok⟩ := hbusy.resolve_succeeds hfinal
  obtain ⟨hdue, hfollows, hafter⟩ := hbusy.resolve hok
  obtain ⟨-, hid⟩ := Store.order?_mem hafter
  rw [← hid] at hdue hafter
  obtain ⟨events, hsettled⟩ := resolution_store policy id hresult hok hafter
  rw [hsettled] at hrun
  cases hrun
  obtain ⟨hsteady, hmoves⟩ := hdue.rolledUp hafter
  exact ⟨hsteady, hfollows.moves_after hmoves⟩

/-- Processing an item that was submitted leaves its order settled. -/
theorem processItem_run {id : String} {r : Except ServiceFault (Option Item)}
    (hsteady : d.store.Steady) (hsent : d.store.Sent id)
    (hrun : (processItem policy id).run d = (r, d')) :
    d'.store.Steady ∧ d.store.Follows OrderStatus.Moves d'.store := by
  unfold processItem at hrun
  rw [run_bind_ok (run_now d)] at hrun
  obtain ⟨started?, e, hbegin, hrun⟩ | ⟨fault, hfault, -⟩ := run_bind_cases hrun
  · have hbegin := store_ok hbegin
    cases started? with
    | none =>
      cases hrun
      obtain ⟨i, -, ⟨-, hsome, -⟩ | ⟨-, -, hsame⟩⟩ := Store.begin_ok hbegin
      · cases hsome
      · rw [hsame]
        exact (Store.Goes.refl _).advances hsteady
    | some started =>
      have hnot : ∀ i ∈ d.store.items, i.id = id → ∀ o ∈ d.store.orders, o.id = i.orderId →
          o.status ≠ .draft := by
        obtain ⟨i, hi, hid, hnot⟩ := hsent
        intro j hj hjid
        rw [hsteady.item_unique hj hi (hjid.trans hid.symm)]
        exact hnot
      obtain ⟨hbusy, hfollows, rfl, hprocessing⟩ := hsteady.begin hbegin hnot
      obtain ⟨i, hi, -, horder, -⟩ := hbusy.item
      obtain ⟨o, ho⟩ := hbusy.order?_placed hi
      rw [horder] at ho
      dsimp only at hrun
      rw [run_bind_ok (run_order_some ho)] at hrun
      obtain ⟨events, hannounce⟩ := run_announce policy
        (ProgressEvent.ofItem o started.id .itemStarted "Extracting item") e
      rw [run_bind_ok hannounce] at hrun
      obtain ⟨outcome, e₂, hexamine, hsame⟩ := examine_gives policy started o.mappingKeys
        { e with events := events }
      rw [run_bind_ok hexamine, run_bind_ok (run_now e₂)] at hrun
      have hbusy' := hbusy.of_records hsame.orders hsame.items hsame.merged
      have hreached : d.store.Follows Eq e₂.store :=
        hfollows.trans (Store.Follows.of_records (fun _ => rfl) hsame.orders hsame.items)
          fun _ _ _ => Eq.trans
      obtain ⟨resolved, hresolved, hid, hplace, hfinal⟩ :=
        exists_resolved hprocessing outcome e₂.clock
      rw [← hid, ← hplace] at hbusy'
      obtain ⟨hsteady', hmoves⟩ := resolution_run hresolved hbusy' hfinal hrun
      exact ⟨hsteady', hreached.moves_after hmoves⟩
  · rw [store_error hfault]
    exact (Store.Goes.refl _).advances hsteady

/-! Retrying. -/

/-- A retry is refused, or stores the next try of a failed item. -/
theorem retryItem_cases {id : String} {r : Except ServiceFault Item}
    (hrun : (retryItem policy id).run d = (r, d')) :
    (d'.store = d.store ∧ ∃ fault, r = .error fault) ∨
      ∃ failed next idAt now o, d.store.item? failed.id = some failed ∧
        failed.retryFrom idAt now = .ok next ∧ Store.retry next d.store = .ok (o, d'.store) ∧
        r = .ok next := by
  unfold retryItem at hrun
  obtain ⟨failed, e, hitem, hrest⟩ | ⟨fault, hfault, rfl⟩ := run_bind_cases hrun
  · obtain ⟨hfound, rfl⟩ := item_ok hitem
    obtain ⟨-, rfl⟩ := Store.item?_mem hfound
    rw [run_bind_ok (run_newIds _ _), run_bind_ok (run_now _)] at hrest
    obtain ⟨next, e₁, hneed, hrest₁⟩ | ⟨fault, hfault, rfl⟩ := run_bind_cases hrest
    · rw [run_need, Prod.mk.injEq, Except.mapError_eq_ok] at hneed
      obtain ⟨hnext, rfl⟩ := hneed
      obtain ⟨o, e₂, hstore, hrest₂⟩ | ⟨fault, hfault, rfl⟩ := run_bind_cases hrest₁
      · have hok := store_ok hstore
        obtain ⟨events, hannounce⟩ := run_announce policy
          (ProgressEvent.ofItem o next.id .itemRetried "Item queued for retry") e₂
        rw [run_bind_ok hannounce] at hrest₂
        cases hrest₂
        exact Or.inr ⟨failed, next, _, _, o, hfound, hnext, hok, rfl⟩
      · rw [store_error hfault]
        exact Or.inl ⟨rfl, fault, rfl⟩
    · rw [run_need, Prod.mk.injEq] at hfault
      rw [← hfault.2]
      exact Or.inl ⟨rfl, fault, rfl⟩
  · rw [item_error hfault]
    exact Or.inl ⟨rfl, fault, rfl⟩

/-- Retrying an item leaves a pending item in an order that was submitted. -/
theorem retryItem_run {id : String} {r : Except ServiceFault Item} (hsteady : d.store.Steady)
    (hrun : (retryItem policy id).run d = (r, d')) :
    (d'.store.Steady ∧ d.store.Follows OrderStatus.Moves d'.store) ∧
      ∀ next, r = .ok next → d'.store.Sent next.id := by
  obtain ⟨hsame, fault, rfl⟩ | ⟨failed, next, idAt, now, o, hfound, hnext, hok, rfl⟩ :=
    retryItem_cases hrun
  · rw [hsame]
    refine ⟨(Store.Goes.refl _).advances hsteady, ?_⟩
    rintro next ⟨⟩
  · obtain ⟨hfailed, -⟩ := Store.item?_mem hfound
    obtain ⟨hplace, hpending, hretry, -⟩ := Store.retryFrom_ok hnext
    have hplaces : ∀ i ∈ d.store.items, next.retryOf = some i.id → i.orderId = next.orderId := by
      intro i hi htries
      rw [hretry, Option.some.injEq] at htries
      rw [hsteady.item_unique hi hfailed htries.symm, hplace]
    refine ⟨hsteady.retry hok hplaces hpending, ?_⟩
    rintro next ⟨⟩
    exact hsteady.retry_sent hok hplaces

theorem retryItem_advances (policy : Policy) (id : String) :
    (retryItem policy id).Keeps Store.Advances :=
  fun _ hsteady => (retryItem_run hsteady rfl).1

/-! Merging. -/

/-- Keeping a merged table completes the order, if it awaited the table. -/
theorem keepMerged_advances (policy : Policy) (order : Order) (merged : Merged) :
    (keepMerged policy order merged).Keeps Store.Advances := by
  intro d
  cases hrun : (keepMerged policy order merged).run d with
  | mk r d' =>
    unfold keepMerged at hrun
    obtain ⟨u, e, hsave, hrest⟩ | ⟨fault, hfault, -⟩ := run_bind_cases hrun
    · have hsaved := store_ok hsave
      refine (Store.goes_saveMerged hsaved).advances_after ?_
      have hkept : e.store.merged.contains order.id = true := by
        obtain ⟨-, hs⟩ := Store.saveMerged_ok hsaved
        rw [hs, Dict.contains_insert, decide_eq_true rfl, Bool.true_or]
      -- the note comes in between, and leaves the merged table alone
      have hnote : Store.noteError order.id none e.store =
          .ok ((), e.store.updateOrder order.id fun o => { o with error := none }) := rfl
      have hnoted := noteError_goes order.id none e
      rw [run_store_ok hnote] at hnoted
      refine hnoted.advances_after ?_
      rw [run_bind_ok (run_store_ok hnote)] at hrest
      split at hrest
      · obtain ⟨moved, e', hmove, hrest'⟩ | ⟨fault, hfault, -⟩ := run_bind_cases hrest
        · have hannounced := announceOrder_goes policy order.id .mergeCompleted "Merge completed" e'
          rw [hrest'] at hannounced
          refine Store.Advances.goes_after ?_ hannounced
          exact fun hsteady => hsteady.complete (store_ok hmove) hkept
        · rw [store_error hfault]
          exact (Store.Goes.refl _).advances
      · have hannounced := announceOrder_goes policy order.id .mergeCompleted "Merge completed"
          { e with store := e.store.updateOrder order.id fun o => { o with error := none } }
        rw [hrest] at hannounced
        exact hannounced.advances
    · rw [store_error hfault]
      exact (Store.Goes.refl _).advances

/-- A merge moves an order on if it gives a table, and else leaves a note. -/
theorem runMerge_advances (policy : Policy) (id : String) :
    (runMerge policy id).Keeps Store.Advances := by
  unfold runMerge
  apply Keeps.advances_after ((Performs.order id).keeps_of_silent goes_gathers)
  intro order
  apply Keeps.advances_after ((isRerun_performs order).keeps_of_silent goes_gathers)
  intro rerun
  extract_lets noted finish
  have hfinish : ∀ u, (finish u).Keeps Store.Advances := by
    intro u
    have hbuilds : (buildMerged policy order).attempt.Keeps Store.Goes :=
      Performs.keeps_of_silent (buildMerged_performs policy order).attempt goes_gathers
    apply Keeps.advances_after hbuilds
    intro built
    split
    · exact Keeps.goes_after (keepMerged_advances policy order _) fun _ =>
        Keeps.pure goes_gathers _
    · refine Keeps.advances (Keeps.bind goes_gathers (noteError_goes _ _) fun _ => ?_)
      exact Performs.keeps_of_silent (Acts.bind (Performs.announce policy _) fun _ => trivial)
        goes_gathers
  split
  · exact Keeps.advances_after ((Performs.need _).keeps_of_silent goes_gathers) hfinish
  · exact hfinish ()

end Service

end Collate
