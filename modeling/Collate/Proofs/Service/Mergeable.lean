import Collate.Proofs.Service.Merging
import Collate.Proofs.Service.Served
import Collate.Proofs.Table.WellFormed
import Mathlib.Data.List.Forall2

/-!
Completed items can be merged. A completed item passed its check, and nothing
that the check looked at changes later: results are recorded once, final items
keep their files, and orders that were sent off keep their keys. So a merge of an
order that awaits it lacks no table of the items; it fails for want of a plan or
of keys, or at the reference data.
-/

namespace Collate.Service

open Procedure

variable {policy : Policy} {options : FlattenOptions} {d : Desk} {item : Item} {o : Order}

/-! What a check that passed says. -/

/-- The table of a file that has a payload on record. -/
def HasTable (options : FlattenOptions) (results : List ExtractionResult) (file : FileRef)
    (table : Table) : Prop :=
  ∃ r ∈ results, r.fileId = file.id ∧
    ∃ raw, r.outcome = .payload raw ∧ Table.ofPayloadText options raw = .ok table

theorem resultTable_ok {results : List ExtractionResult} {file : FileRef} {table : Table}
    (h : resultTable options item results file = .ok table) :
    HasTable options results file table := by
  unfold resultTable at h
  split at h
  · cases h
  · rename_i r hfound
    have hfile : r.fileId = file.id := by simpa using List.find?_some hfound
    split at h
    · rename_i raw hraw
      exact ⟨r, List.mem_of_find?_eq_some hfound, hfile, raw, hraw, Except.mapError_eq_ok.mp h⟩
    · cases h

/-- Each file has its table, next to its role. -/
theorem resultTables_ok {results : List ExtractionResult} {files : List FileRef}
    {tables : List (FileRole × Table)}
    (h : resultTables options item results files = .ok tables) :
    List.Forall₂ (fun file entry => entry.1 = file.role ∧
      HasTable options results file entry.2) files tables := by
  induction files generalizing tables with
  | nil =>
    cases h
    exact .nil
  | cons file rest ih =>
    simp only [resultTables, Except.bind_eq_ok, Except.ok.injEq] at h
    obtain ⟨table, htable, more, hmore, rfl⟩ := h
    exact .cons ⟨rfl, resultTable_ok htable⟩ (ih hmore)

/-- Tables that can be loaded have a payload on record for every file. -/
theorem ofResults_hasTable {results : List ExtractionResult} {tables : ItemTables}
    (h : ItemTables.ofResults options item results = .ok tables) :
    ∀ f ∈ item.files, ∃ table, HasTable options results f table := by
  simp only [ItemTables.ofResults, Except.bind_eq_ok] at h
  obtain ⟨entries, hentries, -⟩ := h
  have hall : List.Forall₂ (fun f (_ : FileRole × Table) =>
      (∃ table, HasTable options results f table) ∧ True) item.files entries :=
    (resultTables_ok hentries).imp fun f entry hentry => ⟨⟨entry.2, hentry.2⟩, trivial⟩
  exact ((List.forall₂_and_left _ _).mp hall).1

/-- The primary table is that of the first primary file. -/
theorem splitPrimary_first {results : List ExtractionResult} {files : List FileRef}
    {tables : List (FileRole × Table)}
    (h : List.Forall₂ (fun file entry => entry.1 = file.role ∧
      HasTable options results file entry.2) files tables) {file : FileRef}
    (hfirst : files.find? (fun f => f.role == .primary) = some file) :
    ∃ table, (splitPrimary tables).1 = some table ∧ HasTable options results file table := by
  induction h with
  | nil => cases hfirst
  | @cons f entry rest more hentry _ ih =>
    obtain ⟨role, table⟩ := entry
    obtain ⟨hrole, htable⟩ := hentry
    cases role with
    | primary =>
      rw [List.find?_cons_of_pos (by simp [← hrole])] at hfirst
      rw [Option.some.injEq] at hfirst
      exact ⟨table, rfl, hfirst ▸ htable⟩
    | attachment =>
      rw [List.find?_cons_of_neg (by simp [← hrole])] at hfirst
      exact ih hfirst

theorem checkHeaders_ok {keys : Option (List String)} {primary : Table} :
    checkHeaders keys primary = .ok () ↔ ∀ k ∈ keys.getD [], primary.hasHeader k = true := by
  unfold checkHeaders
  split
  · rename_i hnone
    simpa using hnone
  · rename_i hsome
    simp only [reduceCtorEq, false_iff]
    intro hall
    refine hsome ?_
    rw [List.filter_eq_nil_iff]
    intro k hk
    simp [hall k hk]

/-- An item that passes its examination has a primary file, and its results pass
the check. -/
theorem examination_passed {disk : Disk} {keys : Option (List String)} {calls : Nat}
    (h : (examination policy disk item keys calls).verdict = .ok ()) :
    item.primaryFile?.isSome = true ∧ judge policy.flatten item keys
      (examination policy disk item keys calls).results = .ok () := by
  unfold examination at h ⊢
  split at h
  · cases h
  · rename_i hprimary
    rw [if_neg hprimary]
    obtain ⟨-, -, hjudge⟩ := Except.bind_eq_ok.mp h
    refine ⟨?_, hjudge⟩
    simpa [Option.isSome_iff_ne_none] using hprimary

/-! The items that passed. -/

/-- A completed item has a primary file, and the results on record pass the check
against the keys of its order. -/
structure Passed (options : FlattenOptions) (s : Store) (i : Item) : Prop where
  primary : i.primaryFile?.isSome = true
  judged : ∀ o, s.order? i.orderId = some o →
    judge options i o.mappingKeys (s.recordedFor i.id) = .ok ()

def AllPassed (options : FlattenOptions) (s : Store) : Prop :=
  ∀ i ∈ s.items, i.status = .completed → Passed options s i

/-- Steps that leave the results of a completed item alone leave it passed. Its
order was sent off, so that the keys are the same ones. -/
theorem AllPassed.carry {s s' : Store} (h : AllPassed options s) (hsteady : s.Steady)
    (hs' : s'.Keyed) (hfrozen : s.Frozen s') {i : Item} (hi : i ∈ s.items)
    (hcompleted : i.status = .completed) (hresults : s'.recordedFor i.id = s.recordedFor i.id) :
    Passed options s' i := by
  obtain ⟨hprimary, hjudged⟩ := h i hi hcompleted
  obtain ⟨o, ho⟩ := hsteady.order?_placed hi
  have hsent : o.status ≠ .draft := by
    intro hdraft
    obtain ⟨homem, hoid⟩ := Store.order?_mem ho
    have hpending := ((hsteady.settled o homem).draft hdraft).1 i hi hoid.symm
    rw [hcompleted] at hpending
    cases hpending
  refine ⟨hprimary, ?_⟩
  intro o' ho'
  rw [hfrozen.same_keys hs' ho hsent ho', hresults]
  exact hjudged o ho

/-- Calls that resolve nothing leave completed items passed. -/
theorem AllPassed.rests {s s' : Store} (h : AllPassed options s) (hsteady : s.Steady)
    (hs' : s'.Keyed) (hrests : s.Rests s') : AllPassed options s' := by
  intro i hi hcompleted
  have hold := hrests.back i hi (by rw [hcompleted]; rfl)
  apply h.carry hsteady hs' hrests.toFrozen hold hcompleted
  rw [Store.recordedFor, Store.recordedFor, hrests.results]

/-- An item that is completed by processing has just passed its check. -/
theorem passed_of_examined (h : d.store.Tidy) {i : Item} (hfound : d.store.item? i.id = some i)
    (hpending : i.status = .pending) (ho : d.store.order? i.orderId = some o)
    (hsent : o.status ≠ .draft) (now : Time.Timestamp) {ex : Examination}
    (hex : ex = examination policy d.disk i o.mappingKeys d.calls)
    (hcompleted : (i.judged now ex.verdict).status = .completed) :
    Passed policy.flatten (d.store.processed i now ex) (i.judged now ex.verdict) := by
  obtain ⟨hresults, honce⟩ :=
    examination_results h hfound hpending policy d.disk o.mappingKeys d.calls
  obtain ⟨hid, horder, -, hfiles⟩ := i.judged_keeps now ex.verdict
  have hverdict := Item.judged_completed hcompleted
  rw [hex] at hverdict
  obtain ⟨hprimary, hjudge⟩ := examination_passed hverdict
  rw [← hex] at hresults honce hjudge
  -- the item was pending, so that its results are those of this examination
  have hrecorded : (d.store.processed i now ex).recordedFor i.id = ex.results := by
    rw [Store.processed_recordedFor now (fun r hr => (hresults r hr).1) i.id, if_pos rfl,
      h.recordedFor_pending hfound hpending, List.nil_append]
  refine ⟨?_, ?_⟩
  · rw [Item.primaryFile?, hfiles]
    exact hprimary
  · intro o' ho'
    rw [horder] at ho'
    have hkeys := (h.processed_frozen hfound hpending ho now ex).same_keys
      (h.processed hfound hpending ho now hresults honce).keyed ho hsent ho'
    rw [hkeys, hid, hrecorded, judge_congr policy.flatten hid hfiles]
    exact hjudge

theorem AllPassed.processItem (h : AllPassed options d.store) (htidy : d.store.Tidy)
    (hsteady : d.store.Steady) (policy : Policy) (hflatten : policy.flatten = options) {id : String}
    (hsent : d.store.Sent id) : AllPassed options ((processItem policy id).run d).2.store := by
  obtain ⟨htidy', hfrozen⟩ := processItem_tidy htidy policy id
  rcases processItem_cases htidy policy id with
    ⟨hsame, -⟩ | ⟨i, o, events, rfl, hfound, hpending, ho, hrun⟩
  · rw [hsame]
    exact h
  · rw [hrun] at htidy' hfrozen ⊢
    intro j hj hcompleted
    rcases Store.mem_processed hj with rfl | ⟨hold, hne⟩
    · have hnotDraft : o.status ≠ .draft := by
        obtain ⟨hi, -⟩ := Store.item?_mem hfound
        obtain ⟨homem, hoid⟩ := Store.order?_mem ho
        obtain ⟨k, hk, hkid, hnotDraft⟩ := hsent
        rw [htidy.item_unique hk hi hkid] at hnotDraft
        exact hnotDraft o homem hoid
      rw [← hflatten]
      exact passed_of_examined htidy hfound hpending ho hnotDraft d.clock rfl hcompleted
    · obtain ⟨hresults, -⟩ :=
        examination_results htidy hfound hpending policy d.disk o.mappingKeys d.calls
      have hrecorded := Store.processed_recordedFor (s := d.store) d.clock
        (fun r hr => (hresults r hr).1) j.id
      rw [if_neg hne, List.append_nil] at hrecorded
      exact h.carry hsteady htidy'.keyed hfrozen hold hcompleted hrecorded

/-- Callers of a service that flattens in one way, who only have items processed
that were asked for. -/
def Handed (options : FlattenOptions) (policy : Policy) (c : Call) (issued : List String) : Prop :=
  policy.flatten = options ∧ c.Allowed issued

theorem Served.allPassed {issued : List String} (h : Served (Handed options) d issued) :
    AllPassed options d.store := by
  induction h with
  | start hempty =>
    rw [hempty]
    intro i hi
    exact absurd hi List.not_mem_nil
  | @call d issued policy c hserved hmay ih =>
    obtain ⟨hflatten, hallowed⟩ := hmay
    have htidy := hserved.tidy
    obtain ⟨hsteady, hsent⟩ := (hserved.reachable fun _ _ _ hmay => hmay.2).steady
    by_cases hc : ∃ item, c = .processItem item
    · obtain ⟨id, rfl⟩ := hc
      rw [processItem_after]
      exact ih.processItem htidy hsteady policy hflatten (hsent id hallowed)
    · obtain ⟨htidy', hrests⟩ := c.idles policy (fun item heq => hc ⟨item, heq⟩) htidy
      exact ih.rests hsteady htidy'.keyed hrests
  | @meanwhile d d' issued hserved hsame hresults ih =>
    intro i hi hcompleted
    rw [hsame.items] at hi
    obtain ⟨hprimary, hjudged⟩ := ih i hi hcompleted
    have horder : d'.store.order? i.orderId = d.store.order? i.orderId := by
      rw [Store.order?, Store.order?, hsame.orders]
    have hrecorded : d'.store.recordedFor i.id = d.store.recordedFor i.id := by
      rw [Store.recordedFor, Store.recordedFor, hresults]
    refine ⟨hprimary, ?_⟩
    rw [horder, hrecorded]
    exact hjudged

/-! The items and merges of a service that is called. -/

/-- What the check of a completed item says of the tables that a merge loads. -/
theorem Passed.tables {s : Store} {i : Item} (h : Passed options s i) (hs : s.Tidy)
    (ho : s.order? i.orderId = some o) : ∃ file tables, i.primaryFile? = some file ∧
      ItemTables.ofResults options i (s.resultsOf i.id) = .ok tables ∧
      (∀ f ∈ i.files, ∃ table, HasTable options (s.resultsOf i.id) f table) ∧
      HasTable options (s.resultsOf i.id) file tables.primary ∧
      ∀ k ∈ o.mappingKeys.getD [], k ∈ tables.primary.headers := by
  obtain ⟨file, hfile⟩ := Option.isSome_iff_exists.mp h.primary
  have hjudged := h.judged o ho
  rw [judge, ← ofResults_resultsOf hs.toRecorded] at hjudged
  split at hjudged
  · rename_i tables htables
    have hloaded := htables
    simp only [ItemTables.ofResults, Except.bind_eq_ok, Except.ok.injEq] at hloaded
    obtain ⟨entries, hentries, rfl⟩ := hloaded
    obtain ⟨table, hfirst, htable⟩ := splitPrimary_first (resultTables_ok hentries) hfile
    refine ⟨file, _, hfile, htables, ofResults_hasTable htables, ?_, ?_⟩
    · rw [hfirst]
      exact htable
    · intro k hk
      exact (Table.hasHeader_iff _ k).mp (checkHeaders_ok.mp hjudged k hk)
  · cases hjudged

/-- Every completed item has a primary file and for each of its files a payload
that makes a table, so that its tables can be loaded, and its primary table has
the keys of its order. A merge of an order that awaits it fails for want of a
plan or of keys, or at the reference data, and for nothing else. -/
theorem Served.completed_mergeable {issued : List String} (h : Served (Handed options) d issued) :
    (∀ i ∈ d.store.items, i.status = .completed →
      (∀ f ∈ i.files, ∃ table, HasTable options (d.store.resultsOf i.id) f table) ∧
      ∃ file tables o, i.primaryFile? = some file ∧ d.store.order? i.orderId = some o ∧
        (∀ policy, policy.flatten = options → (loadTables policy i).run d = (.ok tables, d)) ∧
        HasTable options (d.store.resultsOf i.id) file tables.primary ∧
        ∀ keys, o.mappingKeys = some keys → ∀ k ∈ keys, k ∈ tables.primary.headers) ∧
    ∀ policy, policy.flatten = options → ∀ o ∈ d.store.orders, o.status = .mapping →
      ∀ fault, ((runMerge policy o.id).run d).1 = .error fault → MayFail d o fault := by
  have htidy := h.tidy
  refine ⟨?_, ?_⟩
  · intro i hi hcompleted
    obtain ⟨o, ho⟩ := htidy.order?_placed hi
    obtain ⟨file, tables, hfile, htables, hall, hprimary, hkeys⟩ :=
      (h.allPassed i hi hcompleted).tables htidy ho
    refine ⟨hall, file, tables, o, hfile, ho, ?_, hprimary, ?_⟩
    · intro policy hflatten
      rw [loadTables_run, hflatten, htables]
    · intro keys hsome
      rw [hsome] at hkeys
      exact hkeys
  · intro policy hflatten o hmem hmapping fault hfault
    obtain ⟨i, hi, hcompleted, hitem⟩ := runMerge_error (htidy.order?_of_mem hmem) hmapping hfault
    obtain ⟨himem, -⟩ := Store.mem_itemsOf.mp hi
    obtain ⟨p, hp⟩ := htidy.order?_placed himem
    obtain ⟨-, tables, -, htables, -⟩ := (h.allPassed i himem hcompleted).tables htidy hp
    rw [← hflatten] at htables
    exact mergedItem_error hi hcompleted htables hitem

/-- Processing an item that waits leads on to the store with its examination recorded. -/
theorem Served.processed {issued : List String} {i : Item} (h : Served (Handed options) d issued)
    (policy : Policy) (hflatten : policy.flatten = options) (hissued : i.id ∈ issued)
    (hfound : d.store.item? i.id = some i) (hpending : i.status = .pending)
    (ho : d.store.order? i.orderId = some o) : ∃ issued', Served (Handed options) { d with
      store := d.store.processed i d.clock
        (examination policy d.disk i o.mappingKeys d.calls) } issued' := by
  obtain ⟨events, hrun⟩ := processItem_pending policy h.tidy hfound hpending ho
  have hdone := h.call policy (.processItem i.id) ⟨hflatten, hissued⟩
  rw [processItem_after, hrun] at hdone
  exact ⟨_, hdone.meanwhile ⟨rfl, rfl, rfl⟩ rfl⟩

/-! An order with one item. Its keys are in the document, and the reference data
that its plan names is missing. -/

private def sevenPolicy : Policy :=
  ⟨.standard, .tolerant, ⟨"b"⟩, fun _ _ _ => .ok "\x7b\"id\":\"7\"\x7d", false⟩

private def plannedDesk : Desk := { Desk.empty with
  disk := ⟨[["b"]], [(["b", "a"], [])]⟩
  store := { Store.empty with
    templates := [⟨1, "reference", .singleSource, none, none, 1,
      { JoinConfig.empty with masterCsv := some "m" }⟩] } }

private def draftingCalls : List Call :=
  [.createOrder none, .setMappingKeys (Desk.idOf 0) ["id"],
    .addItem (Desk.idOf 0) "acme" "invoice" "scan",
    .attachFile ⟨"f", Desk.idOf 1, .primary, "a", 0, "a", none⟩,
    .attachFile ⟨"g", Desk.idOf 1, .attachment, "a", 0, "a", none⟩]

private def draftedDesk : Desk := draftingCalls.foldl (fun d c => c.after sevenPolicy d) plannedDesk

private def sentDesk : Desk := (Call.submit (Desk.idOf 0)).after sevenPolicy draftedDesk

private def sentItem : Item :=
  (sentDesk.store.item? (Desk.idOf 1)).getD (Item.create "" "" "" "" "" ⟨0, 0⟩)

private def sentOrder : Order := (sentDesk.store.order? (Desk.idOf 0)).getD (Order.create "" none)

private def completedDesk : Desk := { sentDesk with
  store := sentDesk.store.processed sentItem sentDesk.clock
    (examination sevenPolicy sentDesk.disk sentItem sentOrder.mappingKeys sentDesk.calls) }

private def completedItem : Item :=
  (completedDesk.store.item? (Desk.idOf 1)).getD (Item.create "" "" "" "" "" ⟨0, 0⟩)

private def mappingOrder : Order :=
  (completedDesk.store.order? (Desk.idOf 0)).getD (Order.create "" none)

private theorem served_sentDesk :
    ∃ issued, Served (Handed .standard) sentDesk issued ∧ Desk.idOf 1 ∈ issued := by
  have hstart : Served (Handed .standard) Desk.empty [] := .start rfl
  have hplanned : Served (Handed .standard) plannedDesk [] := hstart.meanwhile ⟨rfl, rfl, rfl⟩ rfl
  have hallowed : ∀ c ∈ draftingCalls, ∀ issued, Handed .standard sevenPolicy c issued := by
    simp [draftingCalls, Handed, Call.Allowed, sevenPolicy]
  obtain ⟨issued, hdrafted⟩ : ∃ issued, Served (Handed .standard) draftedDesk issued :=
    hplanned.calls sevenPolicy draftingCalls hallowed
  have hasked : (Call.submit (Desk.idOf 0)).asks sevenPolicy draftedDesk = [Desk.idOf 1] := by
    decide +kernel
  have hsent := hdrafted.call sevenPolicy (.submit (Desk.idOf 0)) ⟨rfl, trivial⟩
  rw [hasked] at hsent
  exact ⟨issued ++ [Desk.idOf 1], hsent, by simp⟩

private theorem served_completedDesk :
    ∃ issued, Served (Handed .standard) completedDesk issued := by
  obtain ⟨issued, hsent, hissued⟩ := served_sentDesk
  have hitem : sentDesk.store.item? sentItem.id = some sentItem := by decide +kernel
  have hpending : sentItem.status = .pending := by decide +kernel
  have horder : sentDesk.store.order? sentItem.orderId = some sentOrder := by decide +kernel
  have hid : sentItem.id = Desk.idOf 1 := by decide +kernel
  exact hsent.processed sevenPolicy rfl (hid ▸ hissued) hitem hpending horder

/-- The item is completed and has its tables, and the order awaits its merge,
which fails at the reference data. -/
theorem Served.completed_mergeable_without_reference : ∃ d issued,
    Served (Handed .standard) d issued ∧
      (∃ i ∈ d.store.items, i.status = .completed ∧ ∃ tables,
        (loadTables sevenPolicy i).run d = (.ok tables, d) ∧ "id" ∈ tables.primary.headers) ∧
      ∃ o ∈ d.store.orders, o.status = .mapping ∧ ∃ fault,
        ((runMerge sevenPolicy o.id).run d).1 = .error fault ∧ MayFail d o fault := by
  obtain ⟨issued, h⟩ := served_completedDesk
  obtain ⟨hitems, hmerges⟩ := h.completed_mergeable
  have hitem : completedDesk.store.item? (Desk.idOf 1) = some completedItem := by decide +kernel
  have horder : completedDesk.store.order? (Desk.idOf 0) = some mappingOrder := by decide +kernel
  have hcompleted : completedItem.status = .completed := by decide +kernel
  have hmapping : mappingOrder.status = .mapping ∧ mappingOrder.mappingKeys = some ["id"] ∧
      mappingOrder.id = completedItem.orderId ∧ mappingOrder.id = Desk.idOf 0 := by decide +kernel
  obtain ⟨hstatus, hkeys, hplace, hid⟩ := hmapping
  obtain ⟨hi, -⟩ := Store.item?_mem hitem
  obtain ⟨ho, -⟩ := Store.order?_mem horder
  refine ⟨completedDesk, issued, h, ⟨completedItem, hi, hcompleted, ?_⟩, mappingOrder, ho, hstatus,
    .table (.disk .notFound), ?_⟩
  · obtain ⟨-, file, tables, o, -, hfound, hload, -, hheaders⟩ := hitems completedItem hi hcompleted
    rw [← hplace, hid, horder, Option.some.injEq] at hfound
    exact ⟨tables, hload sevenPolicy rfl, hheaders ["id"] (hfound ▸ hkeys) "id" (by simp)⟩
  · have hfails : ((runMerge sevenPolicy mappingOrder.id).run completedDesk).1 =
        .error (.table (.disk .notFound)) := by
      have hone : (completedDesk.store.itemsOf mappingOrder.id).filter (·.status == .completed) =
          [completedItem] := by decide +kernel
      have hfault : mergedItem sevenPolicy completedDesk mappingOrder completedItem =
          .error (.table (.disk .notFound)) := by
        rw [mergedItem, ofResults_resultsOf h.tidy.toRecorded]
        decide +kernel
      rw [← hid] at horder
      rw [runMerge_value horder hstatus, hone, List.mapM_cons, hfault]
      rfl
    exact ⟨hfails, hmerges sevenPolicy rfl mappingOrder ho hstatus _ hfails⟩

end Collate.Service
