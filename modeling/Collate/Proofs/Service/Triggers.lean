import Collate.Proofs.Service.Untimed

/-!
Having the items of an order processed, in any order and as often as one likes.
Where that leads follows from the state at the start and from which items were
triggered at all. `Underway` says so for the state after any triggers, and one
more trigger keeps it: an item that is pending is examined, which comes to the
same whenever it is done, and any other item is passed over.
-/

namespace Collate.Service

open Procedure

/-- An item to be processed, and when. -/
structure Trigger where
  item : String
  time : Time.Timestamp

def processAll (policy : Policy) (triggers : List Trigger) (d : Desk) : Desk :=
  triggers.foldl (fun d t => (Call.processItem t.item).after policy { d with clock := t.time }) d

def Hit (done : List String) (j : Item) : Prop := j.status = .pending ∧ j.id ∈ done

instance (done : List String) (j : Item) : Decidable (Hit done j) :=
  inferInstanceAs (Decidable (j.status = .pending ∧ j.id ∈ done))

section

variable (policy : Policy) (start : Desk) (o : Order)

/-- What examining an item comes to, with the files and keys at the start. -/
def review (j : Item) : Examination := examination policy start.disk j o.mappingKeys 0

/-- What became of an item, the items of some ids having been triggered. -/
def triggered (done : List String) (j : Item) : Item :=
  if Hit done j then j.judged ⟨0, 0⟩ (review policy start o j).verdict else j

/-- The state after items of some ids were triggered. The order has moved on only
if it had pending items and has none any more. -/
structure Underway (done : List String) (d : Desk) : Prop where
  tidy : d.store.Tidy
  disk : d.disk = start.disk
  templates : d.store.templates = start.store.templates
  bindings : d.store.bindings = start.store.bindings
  items : d.store.untimedItems =
    start.store.items.map fun j => (triggered policy start o done j).untimed
  results : ∀ j ∈ start.store.items, d.store.recordedFor j.id =
    start.store.recordedFor j.id ++ if Hit done j then (review policy start o j).results else []
  others : ∀ id, id ≠ o.id → d.store.order? id = start.store.order? id
  order : ∃ now, d.store.order? o.id = some now ∧
    now = { o with
      status := now.status
      completed := now.completed
      failed := now.failed } ∧
    (d.store.Has o.id .pending → now.status = .processing) ∧
    (¬ start.store.Has o.id .pending → now.status = .processing) ∧
    (start.store.Has o.id .pending → ¬ d.store.Has o.id .pending →
      (d.store.rollupFacts now (d.store.itemsOf o.id)).target? = some now.status)

end

variable {policy : Policy} {start d : Desk} {o : Order} {done : List String} {i j : Item}

theorem triggered_pending (h : (triggered policy start o done j).status = .pending) :
    triggered policy start o done j = j ∧ ¬ Hit done j := by
  unfold triggered at h ⊢
  split at h
  · have hfinal := j.judged_final ⟨0, 0⟩ (review policy start o j).verdict
    rw [h] at hfinal
    cases hfinal
  · rename_i hnot
    exact ⟨if_neg hnot, hnot⟩

theorem triggered_id : (triggered policy start o done j).id = j.id := by
  unfold triggered
  split
  · exact (j.judged_keeps _ _).1
  · rfl

namespace Underway

theorem origin (h : Underway policy start o done d) (hi : i ∈ d.store.items) :
    ∃ j ∈ start.store.items, i.untimed = (triggered policy start o done j).untimed := by
  have hmem : i.untimed ∈ d.store.untimedItems := List.mem_map_of_mem hi
  rw [h.items] at hmem
  obtain ⟨j, hj, heq⟩ := List.mem_map.mp hmem
  exact ⟨j, hj, heq.symm⟩

theorem fate (h : Underway policy start o done d) (hj : j ∈ start.store.items) :
    ∃ i ∈ d.store.items, i.untimed = (triggered policy start o done j).untimed := by
  have hmem : (triggered policy start o done j).untimed ∈ d.store.untimedItems := by
    rw [h.items]
    exact List.mem_map.mpr ⟨j, hj, rfl⟩
  obtain ⟨i, hi, heq⟩ := List.mem_map.mp hmem
  exact ⟨i, hi, heq⟩

theorem clock (h : Underway policy start o done d) (time : Time.Timestamp) :
    Underway policy start o done { d with clock := time } :=
  ⟨h.tidy, h.disk, h.templates, h.bindings, h.items, h.results, h.others, h.order⟩

/-- It only matters which of the pending items were triggered. -/
theorem of_hits (h : Underway policy start o done d) {done' : List String}
    (hhits : ∀ j ∈ start.store.items, Hit done' j ↔ Hit done j) :
    Underway policy start o done' d := by
  refine ⟨h.tidy, h.disk, h.templates, h.bindings, ?_, ?_, h.others, h.order⟩
  · rw [h.items]
    apply List.map_congr_left
    intro j hj
    simp only [triggered, hhits j hj]
  · intro j hj
    simp only [h.results j hj, hhits j hj]

/-- A trigger of an item that is not pending hits nothing new. -/
theorem passed (h : Underway policy start o done d) {id : String}
    (hnot : ∀ i, d.store.item? id = some i → i.status ≠ .pending) :
    Underway policy start o (done ++ [id]) d := by
  apply h.of_hits
  intro k hk
  constructor
  · rintro ⟨hpending, hmem⟩
    refine ⟨hpending, ?_⟩
    rcases List.mem_append.mp hmem with hold | hnew
    · exact hold
    · -- an item that nobody triggered would be pending still
      by_contra hopen
      obtain ⟨i, hi, huntimed⟩ := h.fate hk
      rw [triggered, if_neg fun hit => hopen hit.2] at huntimed
      obtain ⟨hid, -, -, -, hstatus, -⟩ := Item.same_of_untimed huntimed
      refine hnot i ?_ (hstatus.trans hpending)
      rw [← List.mem_singleton.mp hnew, ← hid]
      exact h.tidy.item?_of_mem hi
  · rintro ⟨hpending, hmem⟩
    exact ⟨hpending, List.mem_append_left _ hmem⟩

/-- An item that is pending is as it was at the start. -/
theorem pending_same (h : Underway policy start o done d) (hstart : start.store.Tidy)
    (hj : j ∈ start.store.items) (hi : i ∈ d.store.items) (hid : i.id = j.id)
    (hpending : i.status = .pending) : i.untimed = j.untimed ∧ ¬ Hit done j := by
  obtain ⟨k, hk, huntimed⟩ := h.origin hi
  obtain ⟨hkid, -, -, -, hstatus, -⟩ := Item.same_of_untimed huntimed
  obtain ⟨hsame, hnot⟩ := triggered_pending (hstatus.symm.trans hpending)
  rw [hsame] at huntimed hkid
  obtain rfl : k = j := hstart.item_unique hk hj (hkid.symm.trans hid)
  exact ⟨huntimed, hnot⟩

/-- A trigger of a pending item has it processed, which comes to what it would
have come to at the start. -/
theorem processed (h : Underway policy start o done d) (hstart : start.store.Tidy)
    (hsame : ∀ n, policy.extract n = policy.extract 0) (hpos : 0 < o.total)
    (hj : j ∈ start.store.items) (hplace : j.orderId = o.id) (hid : i.id = j.id)
    (hfound : d.store.item? i.id = some i) (hpending : i.status = .pending) {p : Order}
    (hp : d.store.order? i.orderId = some p) (events : List ProgressEvent) :
    Underway policy start o (done ++ [j.id]) { d with
      store := d.store.processed i d.clock (examination policy d.disk i p.mappingKeys d.calls)
      events := events
      calls := (examination policy d.disk i p.mappingKeys d.calls).calls } := by
  obtain ⟨hi, -⟩ := Store.item?_mem hfound
  obtain ⟨huntimed, hnot⟩ := h.pending_same hstart hj hi hid hpending
  obtain ⟨-, horder, -, -, hstatus, -⟩ := Item.same_of_untimed huntimed
  rw [hplace] at horder
  have hhit : Hit (done ++ [j.id]) j := ⟨hstatus.symm.trans hpending, by simp⟩
  have hothers : ∀ k ∈ start.store.items, k.id ≠ j.id → (Hit (done ++ [j.id]) k ↔ Hit done k) := by
    intro k _ hne
    simp [Hit, hne]
  obtain ⟨now, hnow, heq, hprocessing, -, -⟩ := h.order
  obtain rfl : now = p := by
    rw [horder, hnow, Option.some.injEq] at hp
    exact hp
  have hhas : d.store.Has o.id .pending := ⟨i, hi, horder, hpending⟩
  have hkeys : now.mappingKeys = o.mappingKeys := by rw [heq]
  obtain ⟨hfiles, honce⟩ :=
    examination_results h.tidy hfound hpending policy d.disk now.mappingKeys d.calls
  have htidy := h.tidy.processed hfound hpending hp d.clock hfiles honce
  obtain ⟨hresults, hverdict⟩ : (examination policy d.disk i now.mappingKeys d.calls).results =
      (review policy start o j).results ∧
      (examination policy d.disk i now.mappingKeys d.calls).verdict =
        (review policy start o j).verdict := by
    rw [h.disk, hkeys, examination_untimed policy start.disk huntimed]
    exact examination_calls hsame j o.mappingKeys d.calls 0
  generalize examination policy d.disk i now.mappingKeys d.calls = ex at *
  obtain ⟨htemplates, hbindings⟩ := Store.processed_plans d.store i d.clock ex
  refine ⟨htidy, h.disk, htemplates.trans h.templates, hbindings.trans h.bindings, ?_, ?_, ?_, ?_⟩
  · have hitems : (d.store.processed i d.clock ex).untimedItems =
        (d.store.updateItem (i.judged d.clock ex.verdict).id fun _ =>
          i.judged d.clock ex.verdict).untimedItems := by
      rw [Store.untimedItems, Store.processed_items, (i.judged_keeps _ _).1]
      rfl
    dsimp only
    rw [hitems, Store.untimedItems_updateItem, h.items, List.map_map, (i.judged_keeps _ _).1, hid]
    apply List.map_congr_left
    intro k hk
    change (if (triggered policy start o done k).id = j.id then _ else _) = _
    rw [triggered_id]
    by_cases hhere : k.id = j.id
    · obtain rfl := hstart.item_unique hk hj hhere
      rw [if_pos rfl, triggered, if_pos hhit, ← hverdict]
      exact Item.judged_untimed huntimed _ _ _
    · rw [if_neg hhere, triggered, triggered]
      simp only [hothers k hk hhere]
  · intro k hk
    dsimp only
    rw [Store.processed_recordedFor d.clock (fun r hr => (hfiles r hr).1), h.results k hk, hid]
    by_cases hhere : k.id = j.id
    · obtain rfl := hstart.item_unique hk hj hhere
      rw [if_neg hnot, if_pos rfl, if_pos hhit, List.append_nil, hresults]
    · simp only [if_neg hhere, hothers k hk hhere, List.append_nil]
  · intro id hne
    rw [← horder] at hne
    exact (Store.processed_order?_of_ne d.store i d.clock ex hne).trans (h.others id (horder ▸ hne))
  · obtain ⟨after, hafter, hafterEq, hstays, hgoes⟩ :=
      h.tidy.processed_order hfound hpending hp (hprocessing hhas)
        (by rw [heq]; exact hpos) d.clock ex
    rw [horder] at hafter hstays hgoes
    have hstartHas : start.store.Has o.id .pending := ⟨j, hj, hplace, hstatus.symm.trans hpending⟩
    refine ⟨after, hafter, ?_, hstays, fun hnone => absurd hstartHas hnone, fun _ => hgoes⟩
    rw [hafterEq, heq]

theorem trigger (h : Underway policy start o done d) (hstart : start.store.Tidy)
    (hsame : ∀ n, policy.extract n = policy.extract 0) (hpos : 0 < o.total)
    (hj : j ∈ start.store.items) (hplace : j.orderId = o.id) :
    Underway policy start o (done ++ [j.id]) ((Call.processItem j.id).after policy d) := by
  rw [processItem_after]
  rcases processItem_cases h.tidy policy j.id with
    ⟨hidle, hnot⟩ | ⟨i, p, events, hid, hfound, hpending, hp, hrun⟩
  · rw [hidle]
    exact h.passed hnot
  · rw [hrun]
    exact h.processed hstart hsame hpos hj hplace hid hfound hpending hp events

theorem processAll (h : Underway policy start o done d) (hstart : start.store.Tidy)
    (hsame : ∀ n, policy.extract n = policy.extract 0) (hpos : 0 < o.total)
    {triggers : List Trigger}
    (hitems : ∀ t ∈ triggers, ∃ j ∈ start.store.items, j.id = t.item ∧ j.orderId = o.id) :
    Underway policy start o (done ++ triggers.map (·.item))
      (Service.processAll policy triggers d) := by
  induction triggers generalizing d done with
  | nil =>
    rw [List.map_nil, List.append_nil]
    exact h
  | cons t rest ih =>
    obtain ⟨j, hj, hid, hplace⟩ := hitems t (by simp)
    have hnext := (h.clock t.time).trigger hstart hsame hpos hj hplace
    rw [hid] at hnext
    have hrest := ih hnext fun t' ht' => hitems t' (by simp [ht'])
    rw [List.append_assoc] at hrest
    exact hrest

end Underway

/-! Right after an order was submitted. -/

theorem underway_start (policy : Policy) (hstart : start.store.Tidy)
    (ho : start.store.order? o.id = some o) (hprocessing : o.status = .processing) :
    Underway policy start o [] start := by
  have hnone : ∀ j : Item, ¬ Hit [] j := fun j hit => List.not_mem_nil hit.2
  refine ⟨hstart, rfl, rfl, rfl, ?_, ?_, fun _ _ => rfl, o, ho, rfl, fun _ => hprocessing,
    fun _ => hprocessing, fun hsome hno => absurd hsome hno⟩
  · simp only [triggered, if_neg (hnone _)]
    rfl
  · intro j _
    rw [if_neg (hnone j), List.append_nil]

/-- Orders, items and results are the same, apart from when items were
processed. -/
structure SameOutcome (d d' : Desk) : Prop where
  orders : ∀ id, d.store.order? id = d'.store.order? id
  items : d.store.items.map Item.untimed = d'.store.items.map Item.untimed
  results : ∀ item, d.store.resultsOf item = d'.store.resultsOf item

namespace Underway

variable {d' : Desk} {done' : List String}

theorem recordedFor_none (h : Underway policy start o done d) {item : String}
    (hnone : ∀ j ∈ start.store.items, j.id ≠ item) : d.store.recordedFor item = [] := by
  rw [List.eq_nil_iff_forall_not_mem]
  intro r hr
  obtain ⟨hr, hitem⟩ := Store.mem_recordedFor.mp hr
  obtain ⟨i, hi, hid, -, -⟩ := h.tidy.filed r hr
  obtain ⟨j, hj, huntimed⟩ := h.origin hi
  obtain ⟨hjid, -⟩ := Item.same_of_untimed huntimed
  rw [triggered_id] at hjid
  exact hnone j hj (hjid.symm.trans (hid.trans hitem))

/-- The order is where its counters and items say, which are the same. -/
theorem same_order (h : Underway policy start o done d) (h' : Underway policy start o done' d')
    (hitems : d.store.untimedItems = d'.store.untimedItems) :
    d.store.order? o.id = d'.store.order? o.id := by
  obtain ⟨now, hnow, heq, hopen, hempty, hgone⟩ := h.order
  obtain ⟨now', hnow', heq', hopen', hempty', hgone'⟩ := h'.order
  obtain ⟨hmem, hid⟩ := Store.order?_mem hnow
  obtain ⟨hmem', hid'⟩ := Store.order?_mem hnow'
  have hcounters := Store.counters_untimed hitems (h.tidy.exact now hmem)
    (h'.tidy.exact now' hmem') (hid.trans hid'.symm)
  have hstatus : now.status = now'.status := by
    by_cases hhas : d.store.Has o.id .pending
    · rw [hopen hhas, hopen' ((Store.has_untimed hitems _ _).mp hhas)]
    · by_cases hbegan : start.store.Has o.id .pending
      · have hgoes := hgone hbegan hhas
        have hgoes' := hgone' hbegan ((Store.has_untimed hitems _ _).not.mp hhas)
        rw [Store.rollupFacts_untimed hitems (h.templates.trans h'.templates.symm)
          (h.bindings.trans h'.bindings.symm) hcounters (by rw [heq, heq']), hgoes',
          Option.some.injEq] at hgoes
        exact hgoes.symm
      · rw [hempty hbegan, hempty' hbegan]
  obtain ⟨-, hcompleted, hfailed⟩ := hcounters
  rw [hnow, hnow', heq, heq', hstatus, hcompleted, hfailed]

/-- Two runs of triggers come to the same, if they hit the same items. -/
theorem same_outcome (h : Underway policy start o done d) (h' : Underway policy start o done' d')
    (hhits : ∀ j ∈ start.store.items, Hit done j ↔ Hit done' j) : SameOutcome d d' := by
  replace h' := h'.of_hits hhits
  have hitems : d.store.untimedItems = d'.store.untimedItems := h.items.trans h'.items.symm
  refine ⟨?_, hitems, ?_⟩
  · intro id
    by_cases hid : id = o.id
    · rw [hid]
      exact h.same_order h' hitems
    · rw [h.others id hid, h'.others id hid]
  · intro item
    apply Store.resultsOf_congr
    · have hfiles := congrArg (List.map (·.files)) hitems
      simpa only [Store.untimedItems, List.map_map, Function.comp_def, Item.untimed] using hfiles
    · by_cases hthere : ∃ j ∈ start.store.items, j.id = item
      · obtain ⟨j, hj, rfl⟩ := hthere
        rw [h.results j hj, h'.results j hj]
      · have hnone : ∀ j ∈ start.store.items, j.id ≠ item :=
          fun j hj hid => hthere ⟨j, hj, hid⟩
        rw [h.recordedFor_none hnone, h'.recordedFor_none hnone]

end Underway

/-- What a submission leaves to be triggered. -/
theorem submit_underway {order : String} {ids : List String} (h : start.store.Tidy)
    (hrun : (submit policy order).run d = (.ok ids, start)) : ∃ o, o.id = order ∧ 0 < o.total ∧
      Underway policy start o [] start ∧
      ∀ j ∈ start.store.items, j.status = .pending → j.orderId = order → j.id ∈ ids := by
  obtain ⟨⟨o, ho, -, htotal⟩, rfl, horders, hitems⟩ := submit_run hrun
  have hsent : start.store.order? order = some { o with status := .processing } := by
    rw [Store.order?, horders]
    change (d.store.updateOrder order fun o => { o with status := .processing }).order? order = _
    rw [Store.order?_updateOrder, if_pos rfl, ho]
    · rfl
    · exact fun _ => rfl
  obtain ⟨-, hid⟩ := Store.order?_mem ho
  refine ⟨{ o with status := .processing }, hid, Nat.pos_of_ne_zero htotal, ?_, ?_⟩
  · rw [← hid] at hsent
    exact underway_start policy h hsent rfl
  · intro j hj hpending horder
    rw [hitems] at hj
    refine List.mem_map_of_mem (List.mem_filter.mpr ⟨Store.mem_itemsOf.mpr ⟨hj, horder⟩, ?_⟩)
    simp [hpending]

/-- Processing an item leaves every other item with its files and results alone,
however it ends. And where all pending items of an order that was just submitted
are triggered, it makes no difference in which order, how often and when, if the
extractor goes by configuration and content. -/
theorem Served.triggers_outcome {issued : List String}
    (h : Served (fun _ _ _ => True) d issued) :
    (∀ policy id other, other ≠ id →
      ((Call.processItem id).after policy d).store.item? other = d.store.item? other ∧
        ((Call.processItem id).after policy d).store.resultsOf other = d.store.resultsOf other ∧
        ((Call.processItem id).after policy d).disk = d.disk) ∧
    ∀ policy order ids start, (∀ n, policy.extract n = policy.extract 0) →
      (submit policy order).run d = (.ok ids, start) → ∀ first second : List Trigger,
        (∀ t ∈ first ++ second, ∃ j ∈ start.store.items, j.id = t.item ∧ j.orderId = order) →
        (∀ id ∈ ids, id ∈ first.map (·.item) ∧ id ∈ second.map (·.item)) →
        SameOutcome (processAll policy first start) (processAll policy second start) := by
  refine ⟨?_, ?_⟩
  · intro policy id other hne
    rw [processItem_after]
    exact processItem_others h.tidy policy hne
  · intro policy order ids start hsame hrun first second hplaced hall
    have hstart : start.store.Tidy := by
      have hserved := h.call policy (.submit order) trivial
      rw [Call.after, Call.procedure, hrun] at hserved
      exact hserved.tidy
    obtain ⟨o, rfl, hpos, hunderway, hids⟩ := submit_underway hstart hrun
    -- triggers that reach every id hit just the pending items of the order
    have hhits : ∀ triggers : List Trigger,
        (∀ t ∈ triggers, ∃ j ∈ start.store.items, j.id = t.item ∧ j.orderId = o.id) →
        (∀ id ∈ ids, id ∈ triggers.map (·.item)) → ∀ j ∈ start.store.items,
          (Hit ([] ++ triggers.map (·.item)) j ↔ j.status = .pending ∧ j.orderId = o.id) := by
      intro triggers hon hreached j hj
      rw [List.nil_append]
      constructor
      · rintro ⟨hpending, hmem⟩
        obtain ⟨t, ht, hid⟩ := List.mem_map.mp hmem
        obtain ⟨k, hk, hkid, horder⟩ := hon t ht
        obtain rfl := hstart.item_unique hj hk (hid.symm.trans hkid.symm)
        exact ⟨hpending, horder⟩
      · rintro ⟨hpending, horder⟩
        exact ⟨hpending, hreached j.id (hids j hj hpending horder)⟩
    have hfirst := fun t ht => hplaced t (List.mem_append_left second ht)
    have hsecond := fun t ht => hplaced t (List.mem_append_right first ht)
    apply (hunderway.processAll hstart hsame hpos hfirst).same_outcome
      (hunderway.processAll hstart hsame hpos hsecond)
    intro j hj
    rw [hhits first hfirst (fun id hid => (hall id hid).1) j hj,
      hhits second hsecond (fun id hid => (hall id hid).2) j hj]

/-! An order with two items, of which one has a file. -/

private def blankPolicy : Policy := ⟨.standard, .tolerant, ⟨"b"⟩, fun _ _ _ => .ok "", false⟩

private def pairCalls : List Call :=
  [.createOrder none, .addItem (Desk.idOf 0) "acme" "invoice" "first",
    .addItem (Desk.idOf 0) "acme" "invoice" "second",
    .attachFile ⟨"f", Desk.idOf 1, .primary, "a", 0, "a", none⟩]

private def pairDesk : Desk :=
  pairCalls.foldl (fun d c => c.after blankPolicy d)
    { Desk.empty with disk := ⟨[["b"]], [(["b", "a"], [])]⟩ }

private def startDesk : Desk := (Call.submit (Desk.idOf 0)).after blankPolicy pairDesk

private def startOrder : Order := (startDesk.store.order? (Desk.idOf 0)).getD (Order.create "" none)

private def inTurn : List Trigger := [⟨Desk.idOf 1, ⟨1, 0⟩⟩, ⟨Desk.idOf 2, ⟨2, 0⟩⟩]

private def outOfTurn : List Trigger :=
  [⟨Desk.idOf 2, ⟨3, 0⟩⟩, ⟨Desk.idOf 1, ⟨4, 0⟩⟩, ⟨Desk.idOf 2, ⟨5, 0⟩⟩]

private theorem served_pairDesk : ∃ issued, Served (fun _ _ _ => True) pairDesk issued :=
  Served.calls (.start rfl) blankPolicy pairCalls fun _ _ _ => trivial

private theorem startDesk_items : startDesk.store.items.map (fun j => (j.id, j.orderId)) =
    [(Desk.idOf 1, Desk.idOf 0), (Desk.idOf 2, Desk.idOf 0)] := by
  decide +kernel

private theorem inTurn_placed : ∀ t ∈ inTurn ++ outOfTurn,
    ∃ j ∈ startDesk.store.items, j.id = t.item ∧ j.orderId = Desk.idOf 0 := by
  intro t ht
  have hmem : (t.item, Desk.idOf 0) ∈ startDesk.store.items.map fun j => (j.id, j.orderId) := by
    rw [startDesk_items]
    simp only [inTurn, outOfTurn, List.cons_append, List.nil_append, List.mem_cons,
      List.not_mem_nil, or_false] at ht
    rcases ht with rfl | rfl | rfl | rfl | rfl <;> simp
  obtain ⟨j, hj, heq⟩ := List.mem_map.mp hmem
  obtain ⟨hid, horder⟩ := Prod.mk.inj heq
  exact ⟨j, hj, hid, horder⟩

/-- One item is completed and the other fails, whichever comes first. -/
theorem Served.triggers_outcome_pair : ∃ d issued ids start,
    Served (fun _ _ _ => True) d issued ∧
      (submit blankPolicy (Desk.idOf 0)).run d = (.ok ids, start) ∧
      (processAll blankPolicy inTurn start).store.items.map (·.status) = [.completed, .failed] ∧
      SameOutcome (processAll blankPolicy inTurn start)
        (processAll blankPolicy outOfTurn start) := by
  obtain ⟨issued, h⟩ := served_pairDesk
  have hstart : startDesk.store.Tidy :=
    (h.call blankPolicy (.submit (Desk.idOf 0)) trivial).tidy
  -- the submission is accepted; its ids are those of the two items, in some order
  have hok : ((submit blankPolicy (Desk.idOf 0)).run pairDesk).1.isOk = true := by decide +kernel
  obtain ⟨ids, hrun⟩ : ∃ ids, (submit blankPolicy (Desk.idOf 0)).run pairDesk =
      (.ok ids, startDesk) := by
    have hafter : ((submit blankPolicy (Desk.idOf 0)).run pairDesk).2 = startDesk := rfl
    cases hresult : (submit blankPolicy (Desk.idOf 0)).run pairDesk with
    | mk r e =>
      rw [hresult] at hok hafter
      cases r with
      | ok ids => exact ⟨ids, by rw [← hafter]⟩
      | error fault => cases hok
  have hreached : ∀ id ∈ ids, id ∈ inTurn.map (·.item) ∧ id ∈ outOfTurn.map (·.item) := by
    obtain ⟨-, rfl, -, hitems⟩ := submit_run hrun
    intro id hid
    obtain ⟨j, hj, rfl⟩ := List.mem_map.mp hid
    obtain ⟨hj, -⟩ := Store.mem_itemsOf.mp (List.mem_filter.mp hj).1
    rw [← hitems] at hj
    have hmem := List.mem_map_of_mem (f := fun j => (j.id, j.orderId)) hj
    rw [startDesk_items] at hmem
    simp only [List.mem_cons, Prod.mk.injEq, List.not_mem_nil, or_false] at hmem
    rcases hmem with ⟨hid, -⟩ | ⟨hid, -⟩
    · simp [inTurn, outOfTurn, hid]
    · simp [inTurn, outOfTurn, hid]
  refine ⟨pairDesk, issued, ids, startDesk, h, hrun, ?_, ?_⟩
  · have horder : startDesk.store.order? startOrder.id = some startOrder ∧
        startOrder.status = .processing ∧ 0 < startOrder.total ∧ startOrder.id = Desk.idOf 0 := by
      decide +kernel
    obtain ⟨ho, hprocessing, hpos, hid⟩ := horder
    have hunderway := (underway_start blankPolicy hstart ho hprocessing).processAll
      hstart (fun _ => rfl) hpos
      fun t ht => hid ▸ inTurn_placed t (List.mem_append_left outOfTurn ht)
    have hstatuses := congrArg (List.map (·.status)) hunderway.items
    rw [Store.untimedItems, List.map_map] at hstatuses
    refine hstatuses.trans ?_
    decide +kernel
  · exact h.triggers_outcome.2 blankPolicy (Desk.idOf 0) ids startDesk (fun _ => rfl) hrun inTurn
      outOfTurn inTurn_placed hreached

end Collate.Service
