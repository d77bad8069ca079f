import Collate.Proofs.Service.Tallies

/-!
The events of a service that announces its progress from the start, and the store. However the
service is called, the events tell of every order as many completed items as the order counts,
and as many failed ones, not counting those that are tried again. And each event tells how its
order stood in the store when it was announced.
-/

namespace Collate

/-- Whether notices hold, and tell all that orders count in a store which they did not count in
one before. -/
structure Telling (notices : List Notice) (s s' : Store) : Prop where
  holds : ∀ n ∈ notices, n.Holds
  completed : ∀ id, tally (notices.map (·.event)) id .itemCompleted + (s.counters id).1 =
    (s'.counters id).1
  failed : ∀ id, tally (notices.map (·.event)) id .itemFailed + (s.counters id).2 =
    (s'.counters id).2 + tally (notices.map (·.event)) id .itemRetried

namespace Telling

variable {s s' t : Store}

theorem of_plain {notices : List Notice} (h : ∀ n ∈ notices, n.Plain)
    (hcounters : ∀ id, s'.counters id = s.counters id) : Telling notices s s' := by
  refine ⟨fun n hn => (h n hn).holds, fun id => ?_, fun id => ?_⟩
  · rw [tally_plain h id rfl, hcounters, Nat.zero_add]
  · rw [tally_plain h id rfl, tally_plain h id rfl, hcounters, Nat.zero_add, Nat.add_zero]

theorem singleton {n : Notice} (h : n.Holds)
    (hcompleted : ∀ id, (n.event.orderId == id && n.event.phase == .itemCompleted).toNat +
      (s.counters id).1 = (s'.counters id).1)
    (hfailed : ∀ id, (n.event.orderId == id && n.event.phase == .itemFailed).toNat +
      (s.counters id).2 = (s'.counters id).2 +
        (n.event.orderId == id && n.event.phase == .itemRetried).toNat) :
    Telling [n] s s' := by
  refine ⟨List.forall_mem_singleton.mpr h, fun id => ?_, fun id => ?_⟩
  · rw [List.map_singleton, tally_singleton]
    exact hcompleted id
  · rw [List.map_singleton, tally_singleton, tally_singleton]
    exact hfailed id

theorem append {before after : List Notice} (h : Telling before s s')
    (h' : Telling after s' t) : Telling (before ++ after) s t := by
  refine ⟨fun n hn => ?_, fun id => ?_, fun id => ?_⟩
  · rcases List.mem_append.mp hn with hbefore | hafter
    · exact h.holds n hbefore
    · exact h'.holds n hafter
  · rw [List.map_append, tally_append, ← h'.completed id, ← h.completed id]
    omega
  · have hfailed := h.failed id
    have hfailed' := h'.failed id
    rw [List.map_append, tally_append, tally_append]
    omega

end Telling

/-- What a store is like between calls, as far as announcing goes. -/
structure Store.Ready (s : Store) : Prop extends s.Tidy where
  filled : s.Filled
  blameless : s.Blameless
  sent : s.MergedSent

theorem Store.empty_ready : Store.empty.Ready := by
  refine ⟨Store.empty_tidy, Store.empty_filled, List.forall_mem_nil _, ?_⟩
  intro id hid
  cases hid

namespace Service

open Procedure

variable {policy : Policy} {d : Desk}

/-! Processing and retrying. -/

theorem resolutionEvent_shows (o : Order) (id : String) (resolved : Item) :
    (resolutionEvent o id resolved).Shows o := by
  unfold resolutionEvent
  split
  · exact ⟨rfl, rfl, rfl, rfl, rfl⟩
  · exact ⟨rfl, rfl, rfl, rfl, rfl⟩

/-- Of an item that had no error the event tells whether it is completed or has failed. -/
theorem resolutionEvent_phase {i : Item} (h : i.error = none) (o : Order) (id : String)
    (now : Time.Timestamp) (verdict : Except String Unit) :
    ((resolutionEvent o id (i.judged now verdict)).phase == .itemCompleted) =
        ((i.judged now verdict).status == .completed) ∧
      ((resolutionEvent o id (i.judged now verdict)).phase == .itemFailed) =
        ((i.judged now verdict).status == .failed) ∧
      ((resolutionEvent o id (i.judged now verdict)).phase == .itemRetried) = false := by
  cases verdict with
  | ok u =>
    have hnone : (i.judged now (.ok u)).error = none := h
    rw [resolutionEvent, hnone]
    exact ⟨rfl, rfl, rfl⟩
  | error reason => exact ⟨rfl, rfl, rfl⟩

/-- A notice of a resolved item tells what its order counts more. -/
theorem telling_resolved (h : d.store.Ready) {i : Item} {o : Order}
    (hfound : d.store.item? i.id = some i) (hpending : i.status = .pending)
    (ho : d.store.order? i.orderId = some o) (now : Time.Timestamp) (ex : Examination) :
    Telling [⟨resolutionEvent (Store.countResolution (i.judged now ex.verdict).status o) i.id
        (i.judged now ex.verdict), d.store.settleItem (i.judged now ex.verdict) ex.results⟩]
      d.store (d.store.processed i now ex) := by
  obtain ⟨hi, -⟩ := Store.item?_mem hfound
  obtain ⟨-, hid⟩ := Store.order?_mem ho
  let counted := Store.countResolution (i.judged now ex.verdict).status o
  have hshows : (resolutionEvent counted i.id (i.judged now ex.verdict)).Shows counted :=
    resolutionEvent_shows counted i.id _
  obtain ⟨hcountedId, htotal, -, -⟩ :=
    Store.countResolution_counters (i.judged now ex.verdict).status o
  have horder : (resolutionEvent counted i.id (i.judged now ex.verdict)).orderId = i.orderId :=
    hshows.id.trans (hcountedId.trans hid)
  have hcounted : (d.store.settleItem (i.judged now ex.verdict) ex.results).order? i.orderId =
      some counted := by
    have hplace := (i.judged_keeps now ex.verdict).2.1
    rw [← hplace] at ho ⊢
    exact Store.settleItem_order? ho ex.results
  have hmeasured : counted.Measured := by
    have hopen := h.toBalanced.measured_of_open hi ho (by rw [hpending]; rfl)
    obtain ⟨-, hbalanced⟩ :=
      h.toTidy.resolve_judged hfound hpending ho now ex.verdict ex.results
    exact ⟨htotal ▸ hopen.pos, hbalanced.resolved_le (Store.order?_mem hcounted).1⟩
  obtain ⟨hcompleted, hfailed, hretried⟩ :=
    resolutionEvent_phase (h.blameless i hi hpending) counted i.id now ex.verdict
  refine .singleton ⟨counted, by rw [horder]; exact hcounted, hshows, hmeasured⟩
    (fun id => ?_) fun id => ?_
  · rw [horder, hcompleted, Store.processed_counters ho]
    by_cases hhere : id = i.orderId
    · subst hhere
      simp [Store.counters_some ho, Nat.add_comm]
    · simp [hhere, Ne.symm hhere]
  · rw [horder, hfailed, hretried, Store.processed_counters ho]
    by_cases hhere : id = i.orderId
    · subst hhere
      simp [Store.counters_some ho, Nat.add_comm]
    · simp [hhere, Ne.symm hhere]

/-- Processing an item tells what its order counts more. -/
theorem processItem_telling (hpolicy : policy.announces = true) (h : d.store.Ready)
    (id : String) : Telling ((processItem policy id).notices d) d.store
      ((processItem policy id).run d).2.store := by
  rcases processItem_cases h.toTidy policy id with
    ⟨hsame, -⟩ | ⟨i, o, events, rfl, hfound, hpending, ho, hrun⟩
  · have hnone : (processItem policy id).notices d = [] := by
      have hevents := (processItem_performs policy id).appends.events d
      rw [hsame] at hevents
      simpa using hevents
    rw [hnone, hsame]
    exact .of_plain (List.forall_mem_nil _) fun _ => rfl
  · obtain ⟨hi, -⟩ := Store.item?_mem hfound
    obtain ⟨-, hid⟩ := Store.order?_mem ho
    obtain ⟨rest, hnotices, hrest⟩ := processItem_notices hpolicy h.toTidy hfound hpending ho
    have hbegun : (⟨.ofItem o i.id .itemStarted "Extracting item",
        d.store.begun i.id d.clock⟩ : Notice).Plain := by
      refine ⟨⟨o, ?_, ⟨rfl, rfl, rfl, rfl, rfl⟩, ?_⟩, rfl⟩
      · change d.store.order? o.id = some o
        rw [hid]
        exact ho
      · exact h.toBalanced.measured_of_open hi ho (by rw [hpending]; rfl)
    have hstarted : Telling _ d.store d.store :=
      .of_plain (List.forall_mem_singleton.mpr hbegun) fun _ => rfl
    rw [hnotices, hrun]
    exact hstarted.append ((telling_resolved h hfound hpending ho d.clock _).append
      (.of_plain hrest fun _ => rfl))

theorem processItem_merged (h : d.store.Tidy) (policy : Policy) (id : String) :
    ((processItem policy id).run d).2.store.merged = d.store.merged := by
  rcases processItem_cases h policy id with ⟨hsame, -⟩ | ⟨i, o, events, -, -, -, -, hrun⟩
  · rw [hsame]
  · rw [hrun]
    exact (Store.level_rolledUp _ _).merged

/-- A retry that is accepted tells what its order counts less. -/
theorem retryItem_telling (hpolicy : policy.announces = true) (h : d.store.Ready) (id : String)
    (h' : ((retryItem policy id).run d).2.store.Balanced) :
    Telling ((retryItem policy id).notices d) d.store ((retryItem policy id).run d).2.store := by
  rcases retryItem_notices (d := d) hpolicy id with
    ⟨hnone, hsame⟩ | ⟨failed, next, idAt, now, o, hfound, hnext, hok, hnotices⟩
  · rw [hnone, hsame]
    exact .of_plain (List.forall_mem_nil _) fun _ => rfl
  · obtain ⟨hplace, hpending, hretry, -⟩ := Store.retryFrom_ok hnext
    obtain ⟨failedId, held, before, htries, hheld, hfailed, hfree, hbefore, ho, hcounters⟩ :=
      Store.retry_counters hok
    obtain rfl : failed.id = failedId := Option.some.inj (hretry.symm.trans htries)
    obtain rfl : failed = held := Option.some.inj (hfound.symm.trans hheld)
    have hnew : next ∈ ((retryItem policy id).run d).2.store.items := by
      obtain ⟨failedId, failed, before, -, -, -, -, -, -, -, hs, -⟩ := Store.retry_ok hok
      rw [hs]
      exact List.mem_append_right _ (List.mem_singleton_self next)
    obtain ⟨hmem, horder⟩ := Store.order?_mem ho
    obtain ⟨hbeforeMem, hbeforeId⟩ := Store.order?_mem hbefore
    obtain ⟨hfailedMem, -⟩ := Store.item?_mem hfound
    have hpos : 0 < before.failed :=
      h.toBalanced.failed_pos hbeforeMem hfailedMem hbeforeId.symm hfailed hfree
    have hthere := ho
    rw [← horder] at hthere
    rw [hnotices]
    refine .singleton ⟨o, hthere, ⟨rfl, rfl, rfl, rfl, rfl⟩, ?_⟩ (fun id => ?_) fun id => ?_
    · exact h'.measured_of_open hnew (hplace ▸ ho) (by rw [hpending]; rfl)
    · change (o.id == id && false).toNat + _ = _
      rw [Bool.and_false, hcounters]
      by_cases hhere : id = failed.orderId
      · subst hhere
        simp [Store.counters_some hbefore]
      · simp [hhere]
    · change (o.id == id && false).toNat + _ = _ + (o.id == id && true).toNat
      rw [Bool.and_false, Bool.and_true, hcounters, horder]
      by_cases hhere : id = failed.orderId
      · subst hhere
        simp only [Store.counters_some hbefore, if_pos, beq_self_eq_true, Bool.toNat_true,
          Bool.toNat_false]
        omega
      · simp [hhere, Ne.symm hhere]

theorem retryItem_merged (policy : Policy) (id : String) :
    ((retryItem policy id).run d).2.store.merged = d.store.merged := by
  cases hrun : (retryItem policy id).run d with
  | mk r d' =>
    rcases retryItem_cases hrun with ⟨hsame, -⟩ | ⟨failed, next, idAt, now, o, -, -, hok, -⟩
    · rw [hsame]
    · obtain ⟨failedId, held, before, -, -, -, -, -, -, -, hs, -⟩ := Store.retry_ok hok
      rw [hs]
      rfl

/-! Merging. -/

theorem runMerge_counters (policy : Policy) (order id : String) :
    ((runMerge policy order).run d).2.store.counters id = d.store.counters id := by
  rcases runMerge_cases (d := d) policy order with
    hsame | ⟨o, -, -, ⟨error, hnoted⟩ | ⟨table, hkept⟩⟩
  · rw [hsame]
  · rw [hnoted, Store.noted, Store.counters_updateOrder]
    exact fun _ => ⟨rfl, rfl, rfl⟩
  · rw [hkept, Store.counters_kept]

/-! Calls. -/

namespace Call

/-- Only orders that were sent off are merged. -/
theorem merged_sent (h : d.store.Ready) (c : Call) {id : String}
    (hid : (c.after policy d).store.merged.contains id = true) :
    ∃ o, d.store.order? id = some o ∧ o.status ≠ .draft := by
  by_cases hreckons : c.Reckons
  · cases c with
    | processItem item =>
      rw [processItem_after, processItem_merged h.toTidy] at hid
      exact h.sent id hid
    | retryItem item =>
      rw [after, procedure, run_bind_pure, retryItem_merged] at hid
      exact h.sent id hid
    | runMerge order =>
      rw [after, procedure, run_bind_pure] at hid
      rcases runMerge_cases (d := d) policy order with
        hidle | ⟨o, ho, hadmits, ⟨error, hnoted⟩ | ⟨table, hkept⟩⟩
      · rw [hidle] at hid
        exact h.sent id hid
      · rw [hnoted] at hid
        exact h.sent id hid
      · rw [hkept, Store.kept_merged, Dict.contains_insert, Bool.or_eq_true,
          decide_eq_true_iff] at hid
        rcases hid with rfl | hold
        · exact ⟨o, ho, hadmits.sent⟩
        · exact h.sent id hold
    | _ => exact hreckons.elim
  · rw [(level policy hreckons).merged] at hid
    exact h.sent id hid

/-- Every call leaves the store ready for the next. -/
theorem ready (h : d.store.Ready) (policy : Policy) (c : Call) :
    (c.after policy d).store.Ready := by
  obtain ⟨htidy, hfrozen⟩ : (c.after policy d).store.Tidy ∧
      d.store.Frozen (c.after policy d).store := c.tidy h.toTidy
  have hfilled := (Turn.accounted ⟨policy, c, d⟩ h.toTidy h.filled).1
  have hblameless := c.keeps_all (d := d) blameless_spansAll policy h.blameless
  have hsent := Store.MergedSent.carry hfrozen htidy.toCoherent fun _ => c.merged_sent h
  exact ⟨htidy, hfilled, hblameless, hsent⟩

theorem Reckons.speaks {c : Call} (h : c.Reckons) : c.Speaks := by
  cases c with
  | processItem | retryItem | runMerge => trivial
  | _ => exact h.elim

/-- What a call announces tells what its orders count more, or less. -/
theorem telling (hpolicy : policy.announces = true) (h : d.store.Ready) (c : Call) :
    Telling ((c.procedure policy).notices d) d.store (c.after policy d).store := by
  by_cases hspeaks : c.Speaks
  · cases c with
    | submit order =>
      exact .of_plain (fun n hn => submit_plain h.toBalanced hn)
        (level (c := .submit order) policy not_false).counters
    | processItem item =>
      rw [processItem_after, procedure, notices_bind_pure]
      exact processItem_telling hpolicy h item
    | rollup order =>
      rw [procedure, notices_bind_pure]
      exact .of_plain (fun n hn => rollup_plain hn)
        (level (c := .rollup order) policy not_false).counters
    | retryItem item =>
      have hafter := (ready h policy (.retryItem item)).toBalanced
      rw [after, procedure, run_bind_pure] at hafter ⊢
      rw [notices_bind_pure]
      exact retryItem_telling hpolicy h item hafter
    | runMerge order =>
      rw [after, procedure, run_bind_pure, notices_bind_pure]
      exact .of_plain (fun n hn => runMerge_plain h.toBalanced h.filled hn)
        (runMerge_counters policy order)
    | exportReport order =>
      rw [procedure, notices_bind_pure]
      refine .of_plain (fun n hn => exportReport_plain ?_ hn)
        (level (c := .exportReport order) policy not_false).counters
      intro hmerged o ho
      obtain ⟨p, hp, hsent⟩ := h.sent order hmerged
      obtain rfl : o = p := Option.some.inj (ho.symm.trans hp)
      exact h.toBalanced.measured h.filled ho hsent
    | _ => exact absurd hspeaks id
  · rw [(mute hspeaks policy).notices]
    have hreckons : ¬ c.Reckons := fun hreckons => hspeaks (hreckons.speaks)
    exact .of_plain (List.forall_mem_nil _) (level policy hreckons).counters

end Call

/-! Calls one after the other. -/

/-- Desks that calls lead to which announce their progress, whoever makes them, with all that
was announced. -/
inductive Broadcast : Desk → List Notice → Prop
  | start {d : Desk} : d.store = Store.empty → d.events = [] → Broadcast d []
  | call {d : Desk} {log : List Notice} {policy : Policy} (c : Call) :
      Broadcast d log → policy.announces = true →
      Broadcast (c.after policy d) (log ++ (c.procedure policy).notices d)
  /-- Time passes, files come and go, templates and bindings are saved. -/
  | meanwhile {d d' : Desk} {log : List Notice} :
      Broadcast d log → d.store.SameRecords d'.store →
      d'.store.results = d.store.results → d'.events = d.events → Broadcast d' log

namespace Broadcast

variable {log : List Notice}

theorem ready (h : Broadcast d log) : d.store.Ready := by
  induction h with
  | start hempty _ =>
    rw [hempty]
    exact Store.empty_ready
  | @call d log policy c _ _ ih => exact c.ready ih policy
  | meanwhile _ hsame hresults _ ih =>
    refine ⟨ih.toTidy.of_same hsame.orders hsame.items hresults, ih.filled.of_orders hsame.orders,
      ih.blameless.of_items hsame.items, ?_⟩
    intro id hid
    rw [hsame.merged] at hid
    rw [Store.order?, hsame.orders]
    exact ih.sent id hid

theorem events (h : Broadcast d log) : log.map (·.event) = d.events := by
  induction h with
  | start _ hnone => exact hnone.symm
  | @call d log policy c _ _ ih =>
    rw [List.map_append, ih]
    exact ((c.appends policy).events d).symm
  | meanwhile _ _ _ hsame ih => rw [ih, hsame]

/-- All notices together tell what orders count. -/
theorem telling (h : Broadcast d log) : Telling log Store.empty d.store := by
  induction h with
  | start hempty _ =>
    rw [hempty]
    exact .of_plain (List.forall_mem_nil _) fun _ => rfl
  | call c hbefore hpolicy ih => exact ih.append (c.telling hpolicy hbefore.ready)
  | meanwhile _ hsame _ _ ih =>
    have hidle : Telling [] _ _ :=
      .of_plain (List.forall_mem_nil _) (Store.Level.of_orders hsame.orders hsame.merged).counters
    have happended := ih.append hidle
    rwa [List.append_nil] at happended

/-- The events tell of every order as many completed items as it counts, and as many failed ones
but for those tried again. Each event tells the status and the counters of its order in the store
when it was announced, its percentage is exact and is full just when all items are resolved, and
the sum it is made of does not overflow. -/
theorem events_agree (h : Broadcast d log) :
    log.map (·.event) = d.events ∧
    (∀ o ∈ d.store.orders, tally d.events o.id .itemCompleted = o.completed ∧
      (tally d.events o.id .itemFailed : Int) - tally d.events o.id .itemRetried = o.failed) ∧
    ∀ n ∈ log, ∃ o, n.store.order? n.event.orderId = some o ∧ n.event.Shows o ∧ 0 < o.total ∧
      n.event.percent = (o.completed + o.failed) * 100 / o.total ∧
      (n.event.percent = 100 ↔ o.completed + o.failed = o.total) ∧
      (o.total < UInt32.size →
        (UInt32.ofNat o.completed + UInt32.ofNat o.failed).toNat = o.completed + o.failed) := by
  refine ⟨h.events, fun o ho => ?_, fun n hn => ?_⟩
  · have hcounters := Store.counters_some (h.ready.order?_of_mem ho)
    have hcompleted := h.telling.completed o.id
    have hfailed := h.telling.failed o.id
    rw [h.events, hcounters] at hcompleted hfailed
    have hempty : Store.empty.counters o.id = (0, 0) := rfl
    rw [hempty] at hcompleted hfailed
    dsimp only at hcompleted hfailed
    exact ⟨hcompleted, by omega⟩
  · obtain ⟨o, ho, hshows, hmeasured⟩ := h.telling.holds n hn
    obtain ⟨hpercent, hfull⟩ := ProgressEvent.percent_of_measured hshows hmeasured
    refine ⟨o, ho, hshows, hmeasured.pos, hpercent, hfull, fun hsize => ?_⟩
    have hle := hmeasured.le
    simp only [UInt32.toNat_add, UInt32.toNat_ofNat']
    simp only [UInt32.size] at hsize
    omega

/-- Calls under one policy that has them announced. -/
theorem calls (h : Broadcast d log) (hpolicy : policy.announces = true) (calls : List Call) :
    ∃ log, Broadcast (calls.foldl (fun d c => c.after policy d) d) log := by
  induction calls generalizing d log with
  | nil => exact ⟨log, h⟩
  | cons c rest ih => exact ih (h.call c hpolicy)

end Broadcast

/-! An order of three items. One is extracted as an empty text, one has no file and fails, is
tried again and fails again, and one is left. -/

private def emptyTextPolicy : Policy := ⟨.standard, .tolerant, ⟨"b"⟩, fun _ _ _ => .ok "", true⟩

private def retryingCalls : List Call :=
  [.createOrder none, .addItem (Desk.idOf 0) "acme" "invoice" "scan",
    .addItem (Desk.idOf 0) "acme" "invoice" "more", .addItem (Desk.idOf 0) "acme" "invoice" "last",
    .attachFile ⟨"f", Desk.idOf 1, .primary, "a", 0, "a", none⟩, .submit (Desk.idOf 0),
    .processItem (Desk.idOf 1), .processItem (Desk.idOf 2), .retryItem (Desk.idOf 2),
    .processItem (Desk.idOf 4)]

private def oneFileDesk : Desk := { Desk.empty with disk := ⟨[["b"]], [(["b", "a"], [])]⟩ }

private def retriedDesk : Desk :=
  retryingCalls.foldl (fun d c => c.after emptyTextPolicy d) oneFileDesk

/-- The order counts one item completed and one failed. The events tell of one completed, of two
failed and of one tried again, and one of them tells that two of three items are resolved. -/
theorem Broadcast.events_agree_retried : ∃ d log o, Broadcast d log ∧ o ∈ d.store.orders ∧
    tally d.events o.id .itemCompleted = 1 ∧ tally d.events o.id .itemRetried = 1 ∧
    tally d.events o.id .itemFailed = 2 ∧
    ∃ n ∈ log, ∃ p, n.store.order? n.event.orderId = some p ∧ n.event.Shows p ∧
      (p.completed + p.failed) * 100 / p.total = 66 := by
  obtain ⟨log, hlog⟩ : ∃ log, Broadcast retriedDesk log :=
    (Broadcast.start (d := oneFileDesk) rfl rfl).calls (rfl : emptyTextPolicy.announces = true)
      retryingCalls
  have hcounts : ∃ o ∈ retriedDesk.store.orders, o.completed = 1 ∧ o.failed = 1 ∧
      tally retriedDesk.events o.id .itemRetried = 1 := by
    decide +kernel
  have hmost : ∃ e ∈ retriedDesk.events, e.percent = 66 := by
    decide +kernel
  obtain ⟨hevents, hagree, hshown⟩ := Broadcast.events_agree hlog
  obtain ⟨o, ho, hcompleted, hfailed, hretried⟩ := hcounts
  obtain ⟨htold, hleft⟩ := hagree o ho
  obtain ⟨e, he, hpercent⟩ := hmost
  rw [← hevents] at he
  obtain ⟨n, hn, rfl⟩ := List.mem_map.mp he
  obtain ⟨p, hp, hshows, -, hexact, -⟩ := hshown n hn
  refine ⟨retriedDesk, log, o, hlog, ho, htold.trans hcompleted, hretried, ?_, n, hn, p, hp,
    hshows, hexact.symm.trans hpercent⟩
  rw [hretried, hfailed] at hleft
  omega

end Service

end Collate
