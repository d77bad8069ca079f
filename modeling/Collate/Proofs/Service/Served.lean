import Collate.Proofs.Service.Operations
import Collate.Proofs.Service.Processing

/-!
Calls of the service by callers who may make some calls and not others. Whatever
they may do, the store is tidy between calls. Every call but processing resolves
nothing; processing resolves one item and leaves the others alone.
-/

namespace Collate.Service

open Procedure

/-- Desks that calls lead to which a caller may make, with the ids of the items
asked for so far. -/
inductive Served (may : Policy → Call → List String → Prop) : Desk → List String → Prop
  | start {d : Desk} : d.store = Store.empty → Served may d []
  | call {d : Desk} {issued : List String} (policy : Policy) (c : Call) :
      Served may d issued → may policy c issued →
      Served may (c.after policy d) (issued ++ c.asks policy d)
  /-- Time passes, files come and go, templates and bindings are saved. -/
  | meanwhile {d d' : Desk} {issued : List String} :
      Served may d issued → d.store.SameRecords d'.store →
      d'.store.results = d.store.results → Served may d' issued

variable {policy : Policy} {d : Desk}

/-- Calls that a caller may make at any time may be made one after the other. -/
theorem Served.calls {may : Policy → Call → List String → Prop} {issued : List String}
    (h : Served may d issued) (policy : Policy) (calls : List Call)
    (hmay : ∀ c ∈ calls, ∀ issued, may policy c issued) :
    ∃ issued, Served may (calls.foldl (fun d c => c.after policy d) d) issued := by
  induction calls generalizing d issued with
  | nil => exact ⟨issued, h⟩
  | cons c rest ih =>
    exact ih (h.call policy c (hmay c (by simp) issued)) fun c hc => hmay c (by simp [hc])

/-! Calls that resolve nothing. -/

theorem idles_gathers : Gathers Store.Idles where
  refl := Store.Idles.refl
  trans h h' := h.trans h'

theorem idles_covers : Covers Store.Idles := by
  have hupdate : ∀ {s : Store} {id : String} {change : Order → Order},
      (∀ o, ((change o).id = o.id ∧ (change o).status = o.status ∧
        (change o).mappingKeys = o.mappingKeys) ∧ (change o).total = o.total ∧
        (change o).completed = o.completed ∧ (change o).failed = o.failed) →
      s.Idles (s.updateOrder id change) := by
    intro s id change hsame
    exact Store.idles_updateOrder (Store.change_updateOrder (fun o => (hsame o).1) fun o =>
      (hsame o).2) (fun o => (hsame o).1.1) fun o => (hsame o).2
  refine ⟨idles_gathers, Store.idles_createOrder, fun hok => Store.idles_addItem hok rfl rfl,
    Store.idles_attachFile, Store.idles_setMappingKeys, ?_, ?_, ?_⟩
  · intro s s' id reference hok
    rw [Store.setMappingFile_ok hok]
    exact hupdate fun _ => ⟨⟨rfl, rfl, rfl⟩, rfl, rfl, rfl⟩
  · intro s s' id error hok
    rw [Store.noteError_ok hok]
    exact hupdate fun _ => ⟨⟨rfl, rfl, rfl⟩, rfl, rfl, rfl⟩
  · intro s s' id paths hok
    rw [Store.setReportPaths_ok hok]
    exact hupdate fun _ => ⟨⟨rfl, rfl, rfl⟩, rfl, rfl, rfl⟩

theorem idles_spans : Spans Store.Idles where
  toCovers := idles_covers
  submit := Store.idles_submit
  moveOrder := Store.idles_moveOrder
  rollUp := Store.idles_rollUp
  saveMerged := Store.idles_saveMerged
  retry := Store.idles_retry

/-- Only processing resolves items. -/
theorem Call.idles (policy : Policy) (c : Call) (hc : ∀ item, c ≠ .processItem item) :
    d.store.Idles (c.after policy d).store :=
  c.keeps idles_spans policy hc

/-! Processing. -/

theorem processItem_after (policy : Policy) (id : String) :
    (Call.processItem id).after policy d = ((processItem policy id).run d).2 := by
  rw [Call.after, Call.procedure, run_bind_pure]

/-- An item is passed over, or was pending and is processed. -/
theorem processItem_cases (h : d.store.Tidy) (policy : Policy) (id : String) :
    (((processItem policy id).run d).2 = d ∧
        ∀ i, d.store.item? id = some i → i.status ≠ .pending) ∨
      ∃ i o events, i.id = id ∧ d.store.item? i.id = some i ∧ i.status = .pending ∧
        d.store.order? i.orderId = some o ∧
        ((processItem policy id).run d).2 = { d with
          store := d.store.processed i d.clock
            (examination policy d.disk i o.mappingKeys d.calls)
          events := events
          calls := (examination policy d.disk i o.mappingKeys d.calls).calls } := by
  cases hfound : d.store.item? id with
  | none =>
    refine Or.inl ⟨processItem_missing hfound, ?_⟩
    intro i hi
    cases hi
  | some i =>
    obtain ⟨hi, rfl⟩ := Store.item?_mem hfound
    by_cases hpending : i.status = .pending
    · obtain ⟨o, ho⟩ := h.order?_placed hi
      obtain ⟨events, hrun⟩ := processItem_pending policy h hfound hpending ho
      exact Or.inr ⟨i, o, events, rfl, hfound, hpending, ho, by rw [hrun]⟩
    · refine Or.inl ⟨by rw [processItem_passed hfound hpending], ?_⟩
      intro j hj
      rw [Option.some.injEq] at hj
      exact hj ▸ hpending

/-- The results of an examination are for the item's own files. -/
theorem examination_results (h : d.store.Tidy) {i : Item} (hfound : d.store.item? i.id = some i)
    (hpending : i.status = .pending) (policy : Policy) (disk : Disk)
    (keys : Option (List String)) (calls : Nat) :
    (∀ r ∈ (examination policy disk i keys calls).results, r.itemId = i.id ∧
        ∃ f ∈ i.files, f.id = r.fileId) ∧
      ((examination policy disk i keys calls).results.map (·.fileId)).Nodup := by
  have hresults := (h.examinable hfound hpending d.clock).results policy disk keys calls
  rw [examination_started] at hresults
  exact hresults

theorem processItem_tidy (h : d.store.Tidy) (policy : Policy) (id : String) :
    ((processItem policy id).run d).2.store.Tidy ∧
      d.store.Frozen ((processItem policy id).run d).2.store := by
  rcases processItem_cases h policy id with
    ⟨hsame, -⟩ | ⟨i, o, events, -, hfound, hpending, ho, hrun⟩
  · rw [hsame]
    exact ⟨h, Store.Frozen.refl _⟩
  · obtain ⟨hresults, honce⟩ :=
      examination_results h hfound hpending policy d.disk o.mappingKeys d.calls
    rw [hrun]
    exact ⟨h.processed hfound hpending ho d.clock hresults honce,
      h.processed_frozen hfound hpending ho d.clock _⟩

/-- Processing an item leaves the files on disk and every other item with its
files and results as they were. -/
theorem processItem_others (h : d.store.Tidy) (policy : Policy) {id other : String}
    (hne : other ≠ id) :
    ((processItem policy id).run d).2.store.item? other = d.store.item? other ∧
      ((processItem policy id).run d).2.store.resultsOf other = d.store.resultsOf other ∧
      ((processItem policy id).run d).2.disk = d.disk := by
  rcases processItem_cases h policy id with
    ⟨hsame, -⟩ | ⟨i, o, events, rfl, hfound, hpending, ho, hrun⟩
  · rw [hsame]
    exact ⟨rfl, rfl, rfl⟩
  · obtain ⟨hi, -⟩ := Store.item?_mem hfound
    obtain ⟨hresults, -⟩ :=
      examination_results h hfound hpending policy d.disk o.mappingKeys d.calls
    rw [hrun]
    refine ⟨Store.processed_item? _ _ hne, ?_, rfl⟩
    apply Store.resultsOf_congr (Store.processed_files h hi _ _)
    rw [Store.processed_recordedFor _ fun r hr => (hresults r hr).1, if_neg hne, List.append_nil]

/-! Any calls. -/

theorem Call.tidy (h : d.store.Tidy) (c : Call) :
    (c.after policy d).store.Tidy ∧ d.store.Frozen (c.after policy d).store := by
  by_cases hc : ∃ item, c = .processItem item
  · obtain ⟨item, rfl⟩ := hc
    rw [processItem_after]
    exact processItem_tidy h policy item
  · obtain ⟨htidy, hrests⟩ := c.idles policy (fun item heq => hc ⟨item, heq⟩) h
    exact ⟨htidy, hrests.toFrozen⟩

theorem Served.tidy {may : Policy → Call → List String → Prop} {issued : List String}
    (h : Served may d issued) : d.store.Tidy := by
  induction h with
  | start hempty =>
    rw [hempty]
    exact Store.empty_tidy
  | call policy c _ _ ih => exact (c.tidy ih).1
  | meanwhile _ hsame hresults ih => exact ih.of_same hsame.orders hsame.items hresults

/-- Callers who only have items processed that were asked for. -/
theorem Served.reachable {may : Policy → Call → List String → Prop} {issued : List String}
    (h : Served may d issued) (hmay : ∀ policy c issued, may policy c issued → c.Allowed issued) :
    Reachable d issued := by
  induction h with
  | start hempty => exact .start hempty
  | call policy c _ hcall ih => exact ih.call policy c (hmay policy c _ hcall)
  | meanwhile _ hsame _ ih => exact ih.meanwhile hsame

end Collate.Service
