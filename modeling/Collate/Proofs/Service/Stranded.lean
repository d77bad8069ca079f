import Collate.Proofs.Service.Refusals
import Collate.Proofs.Service.Served
import Collate.Proofs.Service.Stuck

/-!
How an order gets stuck. Only resolving an item rolls its order up, and only an
order in processing is rolled up. So an order whose items are all processed while
it is drafted stays in processing once it is sent off: the submission finds no item
to ask for, and nobody is called who would roll the order up. That is the only way
for an order to be stuck, and an explicit roll-up or a retry gets it out again.
-/

namespace Collate

namespace Service

open Procedure

variable {policy : Policy} {d : Desk} {id : String}

theorem calm_covers : Covers Store.Calm where
  refl := Store.Calm.refl
  trans h h' := h.trans h'
  createOrder hok := ⟨Store.filled_createOrder hok, Store.stuck_createOrder hok⟩
  addItem hok := ⟨Store.filled_addItem hok, Store.stuck_addItem hok⟩
  attachFile hok := by
    refine ⟨fun h => ?_, Store.stuck_attachFile hok⟩
    obtain ⟨-, -, -, -, -, -, -, rfl⟩ := Store.attachFile_ok hok
    exact h.of_orders rfl
  setMappingKeys hok := by
    rw [(Store.setMappingKeys_ok hok).2]
    exact .updateOrder fun _ => ⟨rfl, rfl, rfl⟩
  setMappingFile hok := by
    rw [Store.setMappingFile_ok hok]
    exact .updateOrder fun _ => ⟨rfl, rfl, rfl⟩
  noteError hok := by
    rw [Store.noteError_ok hok]
    exact .updateOrder fun _ => ⟨rfl, rfl, rfl⟩
  setReportPaths hok := by
    rw [Store.setReportPaths_ok hok]
    exact .updateOrder fun _ => ⟨rfl, rfl, rfl⟩

/-! Calls. -/

/-- What a submission that asks for nothing does to its order: there is nothing
to process, and the order is in processing. -/
theorem submit_stuck (h : d.store.Tidy) {order : String} {ids : List String}
    (hok : ((submit policy order).run d).1 = .ok ids) (other : String) :
    ((submit policy order).run d).2.store.Stuck other ↔
      d.store.Stuck other ∨ order = other ∧ ids = [] := by
  cases hrun : (submit policy order).run d with
  | mk r d' =>
    rw [hrun] at hok
    obtain rfl : r = .ok ids := hok
    obtain ⟨⟨o, ho, hdraft, -⟩, hids, horders, hitems⟩ := submit_run hrun
    have hstatus : d'.store.statusOf other =
        if other = order then (d.store.order? order).map fun _ => .processing
        else d.store.statusOf other := by
      rw [Store.statusOf, Store.order?, horders]
      exact d.store.statusOf_moved order .processing other
    by_cases hhere : other = order
    · subst hhere
      rw [if_pos rfl, ho] at hstatus
      have hnone : ids = [] ↔ ¬ d.store.Has other .pending := by
        rw [hids, List.map_eq_nil_iff, List.filter_eq_nil_iff]
        constructor
        · rintro hall ⟨i, hi, horder, hpending⟩
          exact hall i (Store.mem_itemsOf.mpr ⟨hi, horder⟩) (by simp [hpending])
        · intro hnot i hi hpending
          obtain ⟨hmem, horder⟩ := Store.mem_itemsOf.mp hi
          exact hnot ⟨i, hmem, horder, by simpa using hpending⟩
      have hbefore : ¬ d.store.Stuck other := Store.not_stuck_of_status ho (by simp [hdraft])
      have htidy : d'.store.Tidy := by
        have hkept : ((Call.submit other).after policy d).store.Tidy :=
          ((Call.submit other).tidy h).1
        rwa [Call.after, Call.procedure, hrun] at hkept
      rw [htidy.stuck_iff_none_pending, hstatus, Store.has_of_items hitems, hnone]
      simp [hbefore]
    · rw [if_neg hhere] at hstatus
      rw [Store.Stuck.congr hstatus hitems]
      simp [Ne.symm hhere]

/-- A call on the desk that it met. -/
structure Turn where
  policy : Policy
  call : Call
  desk : Desk

namespace Turn

def after (t : Turn) : Desk := t.call.after t.policy t.desk

/-- Whether a call sends an order off and asks for nothing to be processed. -/
def Strands (t : Turn) (id : String) : Prop :=
  match t.call with
  | .submit order => order = id ∧ ((submit t.policy order).run t.desk).1 = .ok []
  | _ => False

/-- Whether a call rolls an order up or has an item of it tried again. -/
def Frees (t : Turn) (id : String) : Prop :=
  match t.call with
  | .rollup order => order = id
  | .retryItem item => ∃ next, ((retryItem t.policy item).run t.desk).1 = .ok next ∧
      next.orderId = id
  | _ => False

/-- Whether the orders stuck after a call are those that it strands and those
stuck before that it does not free. -/
def Accounted (t : Turn) : Prop :=
  t.after.store.Filled ∧ ∀ id, t.after.store.Stuck id ↔
    t.desk.store.Stuck id ∧ ¬ t.Frees id ∨ t.Strands id

variable {t : Turn}

/-- Only a drafted order is stranded. -/
theorem Strands.draft (h : t.Strands id) : t.desk.store.statusOf id = some .draft := by
  obtain ⟨policy, c, d⟩ := t
  cases c with
  | submit order =>
    obtain ⟨rfl, hok⟩ := h
    obtain ⟨⟨o, ho, hdraft, -⟩, -⟩ := submit_run (Prod.ext hok rfl)
    rw [Store.statusOf_some ho, hdraft]
  | _ => exact absurd h nofun

theorem accounted_of_calm (h : t.desk.store.Calm t.after.store) (hfilled : t.desk.store.Filled)
    (hnone : ∀ id, ¬ t.Frees id ∧ ¬ t.Strands id) : t.Accounted := by
  refine ⟨h.filled hfilled, fun id => ?_⟩
  rw [h.stuck id, and_iff_left (hnone id).1, or_iff_left (hnone id).2]

theorem accounted_submit (h : d.store.Tidy) (hfilled : d.store.Filled) (policy : Policy)
    (order : String) : Accounted ⟨policy, .submit order, d⟩ := by
  cases hrun : (submit policy order).run d with
  | mk r d' =>
    have hafter : after ⟨policy, .submit order, d⟩ = d' := by
      rw [after, Call.after, Call.procedure, hrun]
    cases r with
    | error fault =>
      have hrefused : ((submit policy order).run d).1 = .error fault := by rw [hrun]
      have hspared := submit_spares order fault hrefused
      rw [hrun] at hspared
      refine accounted_of_calm ?_ hfilled fun id => ⟨not_false, ?_⟩
      · rw [hafter, hspared.store]
        exact .refl _
      · rintro ⟨-, hok⟩
        rw [hrun] at hok
        cases hok
    | ok ids =>
      obtain ⟨⟨o, ho, -, htotal⟩, -, horders, -⟩ := submit_run hrun
      constructor
      · have hsent : (d.store.updateOrder order fun o =>
            { o with status := .processing }).Filled := by
          refine hfilled.updateOrder (fun _ => rfl) fun p hp _ => ?_
          obtain rfl : p = o := Option.some.inj (hp.symm.trans ho)
          exact Nat.pos_of_ne_zero htotal
        exact hafter ▸ hsent.of_orders horders
      · intro id
        have haccepted : ((submit policy order).run d).1 = .ok ids := by rw [hrun]
        have hstuck := submit_stuck h haccepted id
        rw [hrun] at hstuck
        have hstrands : Strands ⟨policy, .submit order, d⟩ id ↔ order = id ∧ ids = [] := by
          simp [Strands, hrun]
        rw [hafter, hstuck, hstrands]
        exact or_congr_left (and_iff_left not_false).symm

theorem accounted_processItem (h : d.store.Tidy) (hfilled : d.store.Filled) (policy : Policy)
    (item : String) : Accounted ⟨policy, .processItem item, d⟩ := by
  refine accounted_of_calm ?_ hfilled fun id => ⟨not_false, not_false⟩
  rw [after, processItem_after]
  rcases processItem_cases h policy item with
    ⟨hsame, -⟩ | ⟨i, o, events, -, hfound, hpending, ho, hrun⟩
  · rw [hsame]
    exact .refl _
  · rw [hrun]
    exact ⟨fun _ => Store.filled_processed hfilled i _ _,
      h.stuck_processed hfilled hfound hpending ho _ _⟩

theorem accounted_rollup (h : d.store.Tidy) (hfilled : d.store.Filled) (policy : Policy)
    (order : String) : Accounted ⟨policy, .rollup order, d⟩ := by
  have hafter : after ⟨policy, .rollup order, d⟩ = ((rollup policy order).run d).2 := by
    rw [after, Call.after, Call.procedure, run_bind_pure]
  suffices hstore : (after ⟨policy, .rollup order, d⟩).store.Filled ∧ ∀ id,
      (after ⟨policy, .rollup order, d⟩).store.Stuck id ↔ d.store.Stuck id ∧ id ≠ order by
    refine ⟨hstore.1, fun id => (hstore.2 id).trans ?_⟩
    have hnone : ¬ Strands ⟨policy, .rollup order, d⟩ id := not_false
    rw [or_iff_left hnone]
    exact and_congr_right fun _ => ne_comm
  rw [hafter]
  cases ho : d.store.order? order with
  | none =>
    rw [rollup_missing ho]
    refine ⟨hfilled, fun id => (and_iff_left_of_imp ?_).symm⟩
    rintro ⟨hprocessing, -⟩ rfl
    rw [Store.statusOf, ho] at hprocessing
    cases hprocessing
  | some o =>
    obtain ⟨-, rfl⟩ := Store.order?_mem ho
    obtain ⟨target, events, hrun⟩ := rollup_store policy ho
    rw [hrun]
    exact ⟨Store.filled_rolledUp hfilled o.id, h.stuck_rolledUp hfilled ho⟩

theorem accounted_retryItem (hfilled : d.store.Filled) (policy : Policy) (item : String) :
    Accounted ⟨policy, .retryItem item, d⟩ := by
  cases hrun : (retryItem policy item).run d with
  | mk r d' =>
    have hafter : after ⟨policy, .retryItem item, d⟩ = d' := by
      rw [after, Call.after, Call.procedure, run_bind_pure, hrun]
    rcases retryItem_cases hrun with
      ⟨hsame, fault, rfl⟩ | ⟨failed, next, idAt, now, o, hfound, hnext, hok, rfl⟩
    · refine accounted_of_calm ?_ hfilled fun id => ⟨?_, not_false⟩
      · rw [hafter, hsame]
        exact .refl _
      · rintro ⟨next, hnext, -⟩
        rw [hrun] at hnext
        cases hnext
    · obtain ⟨hplace, hpending, hretry, -⟩ := Store.retryFrom_ok hnext
      have hfrees : ∀ id, Frees ⟨policy, .retryItem item, d⟩ id ↔ next.orderId = id := by
        simp [Frees, hrun]
      refine ⟨hafter ▸ Store.filled_retry hok hfilled, fun id => ?_⟩
      have hnone : ¬ Strands ⟨policy, .retryItem item, d⟩ id := not_false
      rw [hafter, Store.stuck_retry hfound hretry hplace hpending hok, hfrees, or_iff_left hnone]
      exact and_congr_right fun _ => ne_comm

theorem accounted_runMerge (hfilled : d.store.Filled) (policy : Policy) (order : String) :
    Accounted ⟨policy, .runMerge order, d⟩ := by
  refine accounted_of_calm ?_ hfilled fun id => ⟨not_false, not_false⟩
  rw [after, Call.after, Call.procedure, run_bind_pure]
  rcases runMerge_cases (d := d) policy order with
    hsame | ⟨o, ho, hadmits, ⟨error, hnoted⟩ | ⟨table, hkept⟩⟩
  · rw [hsame]
    exact .refl _
  · rw [hnoted]
    exact .updateOrder fun _ => ⟨rfl, rfl, rfl⟩
  · rw [hkept]
    exact Store.calm_kept ho hadmits table

/-- What a call does to the orders that are stuck. -/
theorem accounted (t : Turn) (h : t.desk.store.Tidy) (hfilled : t.desk.store.Filled) :
    t.Accounted := by
  obtain ⟨policy, c, d⟩ := t
  by_cases hc : c.TakesOn
  · cases c with
    | submit order => exact accounted_submit h hfilled policy order
    | processItem item => exact accounted_processItem h hfilled policy item
    | rollup order => exact accounted_rollup h hfilled policy order
    | retryItem item => exact accounted_retryItem hfilled policy item
    | runMerge order => exact accounted_runMerge hfilled policy order
    | _ => exact hc.elim
  · refine accounted_of_calm (calm_covers.call policy hc d) hfilled fun id => ?_
    cases c with
    | submit | rollup | retryItem => exact absurd trivial hc
    | _ => exact ⟨not_false, not_false⟩

/-- A call that leaves nothing more to process in an order that had something to
process takes the order on. -/
theorem takes_on (t : Turn) (h : t.desk.store.Tidy) (hfilled : t.desk.store.Filled)
    (hprocessing : t.desk.store.statusOf id = some .processing) (hopen : ¬ t.desk.store.Stuck id)
    (hfinal : ∀ i ∈ t.after.store.items, i.orderId = id → i.status.isFinal = true) :
    ∃ target ∈ [OrderStatus.mapping, .completed, .failed],
      t.after.store.statusOf id = some target := by
  obtain ⟨o, ho, hstatus⟩ := Option.map_eq_some_iff.mp hprocessing
  obtain ⟨hmem, rfl⟩ := Store.order?_mem ho
  obtain ⟨htidy, hfrozen⟩ : t.after.store.Tidy ∧ t.desk.store.Frozen t.after.store :=
    t.call.tidy h
  obtain ⟨o', ho', hid, hsent, -⟩ := hfrozen.orders o hmem (by simp [hstatus])
  have hafter : t.after.store.statusOf o.id = some o'.status := by
    rw [← hid]
    exact Store.statusOf_some (htidy.order?_of_mem ho')
  have hstrands : ¬ t.Strands o.id := by
    intro hstrands
    rw [hstrands.draft] at hprocessing
    cases hprocessing
  have hnot : ¬ t.after.store.Stuck o.id := by
    rw [(t.accounted h hfilled).2 o.id]
    exact not_or.mpr ⟨fun hboth => hopen hboth.1, hstrands⟩
  refine ⟨o'.status, ?_, hafter⟩
  cases hwhere : o'.status with
  | draft => exact absurd hwhere hsent
  | processing => exact absurd ⟨hwhere ▸ hafter, hfinal⟩ hnot
  | mapping => simp
  | completed => simp
  | failed => simp

end Turn

/-! Calls one after the other. -/

/-- Desks that calls lead to, whoever makes them, with the calls in order. -/
inductive History : Desk → List Turn → Prop
  | start {d : Desk} : d.store = Store.empty → History d []
  | call {d : Desk} {past : List Turn} (policy : Policy) (c : Call) :
      History d past → History (c.after policy d) (past ++ [⟨policy, c, d⟩])
  /-- Time passes, files come and go, templates and bindings are saved. -/
  | meanwhile {d d' : Desk} {past : List Turn} :
      History d past → d.store.SameRecords d'.store →
      d'.store.results = d.store.results → History d' past

/-- Whether one of a list's elements is so and none that comes later is other. -/
def Since {α : Type} (so other : α → Prop) (past : List α) : Prop :=
  ∃ before a later, past = before ++ a :: later ∧ so a ∧ ∀ b ∈ later, ¬ other b

theorem since_concat {α : Type} {so other : α → Prop} {past : List α} {a : α} :
    Since so other (past ++ [a]) ↔ Since so other past ∧ ¬ other a ∨ so a := by
  constructor
  · rintro ⟨before, b, later, heq, hb, hlater⟩
    rcases List.eq_nil_or_concat later with rfl | ⟨rest, c, rfl⟩
    · obtain ⟨-, hsame⟩ := List.append_inj' heq rfl
      obtain rfl : a = b := List.singleton_inj.mp hsame
      exact Or.inr hb
    · rw [List.concat_eq_append, ← List.cons_append, ← List.append_assoc] at heq
      obtain ⟨hpast, hsame⟩ := List.append_inj' heq rfl
      obtain rfl : a = c := List.singleton_inj.mp hsame
      exact Or.inl ⟨⟨before, b, rest, hpast, hb, fun c hc => hlater c (by simp [hc])⟩,
        hlater a (by simp)⟩
  · rintro (⟨⟨before, b, later, rfl, hb, hlater⟩, hlast⟩ | ha)
    · refine ⟨before, b, later ++ [a], by simp, hb, fun c hc => ?_⟩
      rcases List.mem_append.mp hc with hold | hnew
      · exact hlater c hold
      · rw [List.mem_singleton.mp hnew]
        exact hlast
    · exact ⟨past, a, [], rfl, ha, nofun⟩

namespace History

variable {past : List Turn}

theorem tidy (h : History d past) : d.store.Tidy ∧ d.store.Filled := by
  induction h with
  | start hempty =>
    rw [hempty]
    exact ⟨Store.empty_tidy, Store.empty_filled⟩
  | @call d past policy c _ ih =>
    exact ⟨(c.tidy ih.1).1, (Turn.accounted ⟨policy, c, d⟩ ih.1 ih.2).1⟩
  | meanwhile _ hsame hresults ih =>
    exact ⟨ih.1.of_same hsame.orders hsame.items hresults, ih.2.of_orders hsame.orders⟩

/-- An order is stuck since it was sent off with nothing to process. -/
theorem stuck_since (h : History d past) (id : String) :
    d.store.Stuck id ↔ Since (·.Strands id) (·.Frees id) past := by
  induction h with
  | start hempty =>
    refine iff_of_false ?_ ?_
    · rintro ⟨hprocessing, -⟩
      rw [hempty] at hprocessing
      cases hprocessing
    · rintro ⟨before, t, later, heq, -⟩
      simp at heq
  | @call d past policy c hbefore ih =>
    obtain ⟨htidy, hfilled⟩ := hbefore.tidy
    -- what one more call does to a stuck order is what it does to the account of it
    rw [since_concat, ← ih]
    exact (Turn.accounted ⟨policy, c, d⟩ htidy hfilled).2 id
  | meanwhile _ hsame _ ih =>
    rw [← ih]
    refine Store.Stuck.congr ?_ hsame.items
    rw [Store.statusOf, Store.order?, hsame.orders]
    rfl

/-- An order is in processing with nothing left to process exactly if it was sent
off with nothing to process, and was neither rolled up nor had an item tried again
since. Whatever call resolves the last item of an order in processing takes it on. -/
theorem stuck_iff (h : History d past) :
    (∀ id, d.store.Stuck id ↔ Since (·.Strands id) (·.Frees id) past) ∧
    ∀ policy (c : Call) id, d.store.statusOf id = some .processing → ¬ d.store.Stuck id →
      (∀ i ∈ (c.after policy d).store.items, i.orderId = id → i.status.isFinal = true) →
      ∃ target ∈ [OrderStatus.mapping, .completed, .failed],
        (c.after policy d).store.statusOf id = some target := by
  obtain ⟨htidy, hfilled⟩ := h.tidy
  refine ⟨h.stuck_since, fun policy c id hprocessing hopen hfinal => ?_⟩
  exact Turn.takes_on ⟨policy, c, d⟩ htidy hfilled hprocessing hopen hfinal

/-- Calls under one policy. -/
theorem calls (h : History d past) (policy : Policy) (calls : List Call) :
    ∃ past, History (calls.foldl (fun d c => c.after policy d) d) past := by
  induction calls generalizing d past with
  | nil => exact ⟨past, h⟩
  | cons c rest ih => exact ih (h.call policy c)

end History

/-! An order whose item is processed before the order is sent off, and another
one that is sent off first. -/

private def earlyPolicy : Policy := ⟨.standard, .tolerant, ⟨"blobs"⟩, .local, false⟩

private def earlyCalls : List Call :=
  [.createOrder none, .addItem (Desk.idOf 0) "acme" "invoice" "scan", .processItem (Desk.idOf 1),
    .submit (Desk.idOf 0)]

private def laterCalls : List Call :=
  [.createOrder none, .addItem (Desk.idOf 2) "acme" "invoice" "scan", .submit (Desk.idOf 2)]

private def earlyDesk : Desk :=
  earlyCalls.foldl (fun d c => c.after earlyPolicy d) Desk.empty

private def laterDesk : Desk :=
  laterCalls.foldl (fun d c => c.after earlyPolicy d) earlyDesk

/-- The first order stays in processing, and the second one goes on with its item. -/
theorem History.stuck_iff_early : ∃ d past, History d past ∧ d.store.Stuck (Desk.idOf 0) ∧
    Since (·.Strands (Desk.idOf 0)) (·.Frees (Desk.idOf 0)) past ∧
    d.store.statusOf (Desk.idOf 2) = some .processing ∧ ¬ d.store.Stuck (Desk.idOf 2) ∧
    ∃ target ∈ [OrderStatus.mapping, .completed, .failed],
      ((Call.processItem (Desk.idOf 3)).after earlyPolicy d).store.statusOf (Desk.idOf 2) =
        some target := by
  obtain ⟨first, hfirst⟩ := (History.start (d := Desk.empty) rfl).calls earlyPolicy earlyCalls
  obtain ⟨past, hpast⟩ := hfirst.calls earlyPolicy laterCalls
  have hstuck : laterDesk.store.Stuck (Desk.idOf 0) := by decide +kernel
  have hprocessing : laterDesk.store.statusOf (Desk.idOf 2) = some .processing := by
    decide +kernel
  have hopen : ¬ laterDesk.store.Stuck (Desk.idOf 2) := by decide +kernel
  have hfinal : ∀ i ∈ ((Call.processItem (Desk.idOf 3)).after earlyPolicy laterDesk).store.items,
      i.orderId = Desk.idOf 2 → i.status.isFinal = true := by
    decide +kernel
  obtain ⟨hsince, hon⟩ := History.stuck_iff hpast
  exact ⟨laterDesk, past, hpast, hstuck, (hsince _).mp hstuck, hprocessing, hopen,
    hon earlyPolicy _ _ hprocessing hopen hfinal⟩

/-- An order may get stuck: its submission is accepted, asks for nothing to be
processed and leaves it in processing, with its only item failed. -/
theorem History.exists_stuck : ∃ d past policy id, History d past ∧
    ((submit policy id).run d).1 = .ok [] ∧
    ((Call.submit id).after policy d).store.Stuck id := by
  obtain ⟨past, hpast⟩ :=
    (History.start (d := Desk.empty) rfl).calls earlyPolicy (earlyCalls.take 3)
  refine ⟨_, past, earlyPolicy, Desk.idOf 0, hpast, ?_, ?_⟩
  · decide +kernel
  · decide +kernel

end Service

end Collate
