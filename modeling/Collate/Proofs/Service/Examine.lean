import Collate.Proofs.Service.Intake
import Collate.Proofs.Store.Tidy

/-!
What examining an item comes to, without a desk: the results to record and the
verdict, which follow from the files on disk and from what the extractor makes
of them. `examine` records just these results, provided there are none for the
files yet.
-/

namespace Collate

/-- Looking for a key that is there once at most, the order does not matter. -/
theorem find?_eq_of_perm {α κ : Type} [BEq κ] [LawfulBEq κ] {l l' : List α} {key : α → κ}
    (hperm : l.Perm l') (hnodup : (l.map key).Nodup) (k : κ) :
    l.find? (fun a => key a == k) = l'.find? (fun a => key a == k) := by
  cases hfound : l.find? (fun a => key a == k) with
  | none =>
    symm
    rw [List.find?_eq_none] at hfound ⊢
    exact fun a ha => hfound a (hperm.mem_iff.mpr ha)
  | some a =>
    have hmem := List.mem_of_find?_eq_some hfound
    have hkey : key a = k := by simpa using List.find?_some hfound
    cases hfound' : l'.find? (fun a => key a == k) with
    | none =>
      exact absurd hkey (by simpa using List.find?_eq_none.mp hfound' a (hperm.mem_iff.mp hmem))
    | some b =>
      have hmem' := hperm.mem_iff.mpr (List.mem_of_find?_eq_some hfound')
      have hkey' : key b = k := by simpa using List.find?_some hfound'
      rw [List.inj_on_of_nodup_map hnodup hmem hmem' (hkey.trans hkey'.symm)]

namespace Store

def recordedFor (s : Store) (item : String) : List ExtractionResult :=
  s.results.filter (·.itemId == item)

theorem resultsOf_perm (s : Store) (item : String) :
    (s.resultsOf item).Perm (s.recordedFor item) :=
  List.mergeSort_perm _ _

theorem mem_recordedFor {s : Store} {item : String} {r : ExtractionResult} :
    r ∈ s.recordedFor item ↔ r ∈ s.results ∧ r.itemId = item := by
  simp [recordedFor]

theorem Recorded.recordedFor_once {s : Store} (h : s.Recorded) (item : String) :
    ((s.recordedFor item).map (·.fileId)).Nodup :=
  List.Nodup.sublist (List.filter_sublist.map _) h.once

/-- A result for a file that has none is recorded. -/
theorem putResult_new {s : Store} {r : ExtractionResult}
    (hnew : ∀ other ∈ s.results, other.fileId ≠ r.fileId) (hfile : s.hasFile r.fileId = true)
    {i : Item} (hitem : s.item? r.itemId = some i) :
    putResult r s = .ok (true, { s with results := s.results ++ [r] }) := by
  have hnone : s.results.any (·.fileId == r.fileId) = false := by
    simpa using hnew
  simp [putResult, hnone, hfile, hitem]

end Store

namespace Service

open Procedure

/-- The tables of an item are looked up by file, so that the order of results
does not matter. -/
theorem resultTables_congr {options : FlattenOptions} {item item' : Item}
    {results results' : List ExtractionResult} {files : List FileRef} (hid : item.id = item'.id)
    (h : ∀ f ∈ files, results.find? (·.fileId == f.id) = results'.find? (·.fileId == f.id)) :
    resultTables options item results files = resultTables options item' results' files := by
  induction files with
  | nil => rfl
  | cons file rest ih =>
    have hfile : resultTable options item results file =
        resultTable options item' results' file := by
      rw [resultTable, resultTable, h file (by simp), hid]
    rw [resultTables, resultTables, hfile, ih fun f hf => h f (by simp [hf])]

theorem ofResults_perm {options : FlattenOptions} {item : Item}
    {results results' : List ExtractionResult} (hperm : results.Perm results')
    (hnodup : (results.map (·.fileId)).Nodup) :
    ItemTables.ofResults options item results = ItemTables.ofResults options item results' := by
  have hsame : resultTables options item results item.files =
      resultTables options item results' item.files :=
    resultTables_congr rfl fun f _ => find?_eq_of_perm hperm hnodup f.id
  rw [ItemTables.ofResults, ItemTables.ofResults, hsame]

/-- The tables that are loaded are those of the results in the order in which
they were recorded. -/
theorem ofResults_resultsOf {s : Store} (h : s.Recorded) (options : FlattenOptions) (item : Item) :
    ItemTables.ofResults options item (s.resultsOf item.id) =
      ItemTables.ofResults options item (s.recordedFor item.id) := by
  symm
  exact ofResults_perm (s.resultsOf_perm item.id).symm (h.recordedFor_once item.id)

/-! What examining comes to. -/

/-- The results of an examination, whether the item passed, and how often the
extractor was called by then. -/
structure Examination where
  results : List ExtractionResult
  verdict : Except String Unit
  calls : Nat

/-- What the extraction of a file comes to, so many calls having been made
before, and how many calls there were after it. -/
def fileOutcome (policy : Policy) (disk : Disk) (config : DocumentConfig) (reference : String)
    (calls : Nat) : Outcome × Nat :=
  match policy.blobs.read disk reference with
  | .error fault => (.failed fault.message, calls)
  | .ok content =>
    match policy.extract calls config content with
    | .ok raw => (.payload raw, calls + 1)
    | .error error => (.failed error, calls + 1)

/-- The results for files up to the first failure. -/
def extraction (policy : Policy) (disk : Disk) (config : FileRef → DocumentConfig) :
    List FileRef → Nat → Examination
  | [], calls => ⟨[], .ok (), calls⟩
  | file :: rest, calls =>
    let (outcome, calls) := fileOutcome policy disk (config file) file.storageRef calls
    let result : ExtractionResult := ⟨file.id, file.itemId, outcome⟩
    match failureOf file outcome with
    | .ok () =>
      let later := extraction policy disk config rest calls
      ⟨result :: later.results, later.verdict, later.calls⟩
    | .error reason => ⟨[result], .error reason, calls⟩

/-- Whether the results of an item pass the check against its order's keys. -/
def judge (options : FlattenOptions) (item : Item) (keys : Option (List String))
    (results : List ExtractionResult) : Except String Unit :=
  match ItemTables.ofResults options item results with
  | .ok tables => checkHeaders keys tables.primary
  | .error fault => .error fault.message

def examination (policy : Policy) (disk : Disk) (item : Item) (keys : Option (List String))
    (calls : Nat) : Examination :=
  if item.primaryFile?.isNone then ⟨[], .error "item has no primary file", calls⟩
  else
    let extracted := extraction policy disk (DocumentConfig.ofFile item) item.files calls
    { extracted with verdict := do
        extracted.verdict
        judge policy.flatten item keys extracted.results }

theorem ofResults_congr (options : FlattenOptions) {item item' : Item} (hid : item.id = item'.id)
    (hfiles : item.files = item'.files) (results : List ExtractionResult) :
    ItemTables.ofResults options item results = ItemTables.ofResults options item' results := by
  have htables : resultTables options item results item.files =
      resultTables options item' results item.files :=
    resultTables_congr hid fun _ _ => rfl
  rw [ItemTables.ofResults, ItemTables.ofResults, htables, hfiles]

theorem judge_congr (options : FlattenOptions) {item item' : Item} (hid : item.id = item'.id)
    (hfiles : item.files = item'.files) (keys : Option (List String))
    (results : List ExtractionResult) :
    judge options item keys results = judge options item' keys results := by
  rw [judge, judge, ofResults_congr options hid hfiles]

/-- What an examination comes to depends on nothing but what the item is for and
its files. -/
theorem examination_congr (policy : Policy) (disk : Disk) {item item' : Item}
    (hid : item.id = item'.id) (hcompany : item.company = item'.company)
    (hdocument : item.documentType = item'.documentType) (hfiles : item.files = item'.files)
    (keys : Option (List String)) (calls : Nat) :
    examination policy disk item keys calls = examination policy disk item' keys calls := by
  have hconfig : DocumentConfig.ofFile item = DocumentConfig.ofFile item' := by
    funext file
    rw [DocumentConfig.ofFile, DocumentConfig.ofFile, hcompany, hdocument]
  have hprimary : item.primaryFile? = item'.primaryFile? := by
    rw [Item.primaryFile?, Item.primaryFile?, hfiles]
  rw [examination, examination, hprimary, hconfig, hfiles]
  simp only [judge_congr policy.flatten hid hfiles keys]

/-- Beginning an item makes no difference to what examining it comes to. -/
theorem examination_started (policy : Policy) (disk : Disk) (i : Item)
    (keys : Option (List String)) (calls : Nat) (now : Time.Timestamp) :
    examination policy disk { i with status := .processing, startedAt := some now } keys calls =
      examination policy disk i keys calls := by
  apply examination_congr
  · rfl
  · rfl
  · rfl
  · rfl

section

variable {policy : Policy} {disk : Disk} {config : FileRef → DocumentConfig}

/-- Results are for files, the first ones of those given. -/
theorem extraction_files (files : List FileRef) (calls : Nat) :
    ((extraction policy disk config files calls).results.map fun r => (r.fileId, r.itemId)) <+:
      files.map fun f => (f.id, f.itemId) := by
  induction files generalizing calls with
  | nil => exact List.prefix_refl []
  | cons file rest ih =>
    rw [extraction]
    dsimp only
    split
    · rw [List.map_cons, List.map_cons]
      exact (List.prefix_cons_inj _).mpr (ih _)
    · rw [List.map_cons, List.map_cons]
      exact (List.prefix_cons_inj _).mpr (List.nil_prefix)

theorem examination_files (policy : Policy) (disk : Disk) (item : Item)
    (keys : Option (List String)) (calls : Nat) :
    ((examination policy disk item keys calls).results.map fun r => (r.fileId, r.itemId)) <+:
      item.files.map fun f => (f.id, f.itemId) := by
  unfold examination
  split
  · exact List.nil_prefix
  · exact extraction_files item.files calls

/-- With an extractor that goes by configuration and content, earlier calls make
no difference. -/
theorem fileOutcome_calls (hsame : ∀ n, policy.extract n = policy.extract 0)
    (document : DocumentConfig) (reference : String) (calls : Nat) :
    (fileOutcome policy disk document reference calls).1 =
      (fileOutcome policy disk document reference 0).1 := by
  unfold fileOutcome
  rw [hsame calls]
  split
  · rfl
  · split
    · rfl
    · rfl

theorem extraction_calls (disk : Disk) (config : FileRef → DocumentConfig)
    (hsame : ∀ n, policy.extract n = policy.extract 0) (files : List FileRef) (calls calls' : Nat) :
    (extraction policy disk config files calls).results =
        (extraction policy disk config files calls').results ∧
      (extraction policy disk config files calls).verdict =
        (extraction policy disk config files calls').verdict := by
  induction files generalizing calls calls' with
  | nil => exact ⟨rfl, rfl⟩
  | cons file rest ih =>
    have houtcome : (fileOutcome policy disk (config file) file.storageRef calls).1 =
        (fileOutcome policy disk (config file) file.storageRef calls').1 := by
      rw [fileOutcome_calls hsame, fileOutcome_calls hsame _ _ calls']
    rw [extraction, extraction]
    dsimp only
    rw [houtcome]
    split
    · obtain ⟨hresults, hverdict⟩ := ih
        (fileOutcome policy disk (config file) file.storageRef calls).2
        (fileOutcome policy disk (config file) file.storageRef calls').2
      rw [hresults, hverdict]
      exact ⟨rfl, rfl⟩
    · exact ⟨rfl, rfl⟩

theorem examination_calls (hsame : ∀ n, policy.extract n = policy.extract 0) (item : Item)
    (keys : Option (List String)) (calls calls' : Nat) :
    (examination policy disk item keys calls).results =
        (examination policy disk item keys calls').results ∧
      (examination policy disk item keys calls).verdict =
        (examination policy disk item keys calls').verdict := by
  obtain ⟨hresults, hverdict⟩ := extraction_calls disk
    (DocumentConfig.ofFile item) hsame item.files calls calls'
  unfold examination
  split
  · exact ⟨rfl, rfl⟩
  · simp only [hverdict, hresults, and_self]

end

/-! Running an examination. -/

section

variable {policy : Policy} {d : Desk} {item : Item}

theorem extractFile_run (policy : Policy) (item : Item) (file : FileRef) (d : Desk) :
    (extractFile policy item file).run d =
      (.ok (fileOutcome policy d.disk (DocumentConfig.ofFile item file) file.storageRef d.calls).1,
        { d with calls :=
          (fileOutcome policy d.disk (DocumentConfig.ofFile item file) file.storageRef
            d.calls).2 }) := by
  have hread : (readBlob policy file.storageRef).run d =
      (.ok (policy.blobs.read d.disk file.storageRef), d) := rfl
  unfold extractFile fileOutcome
  rw [run_bind_ok hread]
  cases policy.blobs.read d.disk file.storageRef with
  | error fault => rfl
  | ok content =>
    dsimp only
    have hextract : (extract policy (DocumentConfig.ofFile item file) content).run d =
        (.ok (policy.extract d.calls (DocumentConfig.ofFile item file) content),
          { d with calls := d.calls + 1 }) := rfl
    rw [run_bind_ok hextract]
    cases policy.extract d.calls (DocumentConfig.ofFile item file) content with
    | ok raw => rfl
    | error error => rfl

/-- Extracting files records a result for each, up to the first failure. -/
theorem extractFiles_run (policy : Policy) (item : Item) (files : List FileRef)
    (hnew : ∀ r ∈ d.store.results, ∀ f ∈ files, r.fileId ≠ f.id)
    (hdistinct : (files.map (·.id)).Nodup)
    (hthere : ∀ f ∈ files, d.store.hasFile f.id = true ∧ ∃ i, d.store.item? f.itemId = some i) :
    (extractFiles policy item files).run d =
      (.ok (extraction policy d.disk (DocumentConfig.ofFile item) files d.calls).verdict,
        { d with
          store := { d.store with results := d.store.results ++
            (extraction policy d.disk (DocumentConfig.ofFile item) files d.calls).results }
          calls := (extraction policy d.disk (DocumentConfig.ofFile item) files d.calls).calls })
    := by
  induction files generalizing d with
  | nil =>
    simp only [extraction, List.append_nil]
    rfl
  | cons file rest ih =>
    obtain ⟨hfile, i, hitem⟩ := hthere file (by simp)
    rw [List.map_cons, List.nodup_cons] at hdistinct
    rw [extractFiles, extraction, run_bind_ok (extractFile_run policy item file d)]
    dsimp only
    generalize fileOutcome policy d.disk (DocumentConfig.ofFile item file) file.storageRef
      d.calls = found
    obtain ⟨outcome, calls⟩ := found
    let result : ExtractionResult := ⟨file.id, file.itemId, outcome⟩
    let recorded : Desk := { d with
      store := { d.store with results := d.store.results ++ [result] }, calls := calls }
    have hput : Store.putResult result d.store =
        .ok (true, { d.store with results := d.store.results ++ [result] }) :=
      Store.putResult_new (fun r hr => hnew r hr file (by simp)) hfile hitem
    have hrun : (Procedure.store (Store.putResult result)).attempt.run { d with calls := calls } =
        (.ok (.ok true), recorded) := by
      rw [run_attempt, run_store_ok (d := { d with calls := calls }) hput]
    dsimp only
    rw [run_bind_ok hrun]
    dsimp only
    cases outcome with
    | payload raw =>
      -- the other files have no result still, since ids are not repeated
      have hrest := ih (d := recorded)
        (by
          intro r hr f hf
          rcases List.mem_append.mp hr with hold | hlast
          · exact hnew r hold f (by simp [hf])
          · rw [List.mem_singleton.mp hlast]
            intro heq
            refine hdistinct.1 ?_
            rw [show file.id = f.id from heq]
            exact List.mem_map_of_mem hf)
        hdistinct.2 fun f hf => hthere f (by simp [hf])
      dsimp only [failureOf]
      rw [hrest]
      simp only [recorded, result, List.append_assoc, List.singleton_append]
    | failed error => rfl

theorem checkResults_run (policy : Policy) (item : Item) (keys : Option (List String)) (d : Desk) :
    (checkResults policy item keys).run d =
      (.ok (judge policy.flatten item keys (d.store.resultsOf item.id)), d) := by
  have hload : (loadTables policy item).attempt.run d =
      (.ok (ItemTables.ofResults policy.flatten item (d.store.resultsOf item.id)), d) := by
    rw [run_attempt]
    rfl
  rw [checkResults, run_bind_ok hload, judge]
  cases ItemTables.ofResults policy.flatten item (d.store.resultsOf item.id) with
  | ok tables => rfl
  | error fault => rfl

structure Examinable (s : Store) (item : Item) : Prop where
  there : s.item? item.id = some item
  owned : ∀ f ∈ item.files, f.itemId = item.id
  distinct : (item.files.map (·.id)).Nodup
  new : ∀ r ∈ s.results, r.itemId ≠ item.id ∧ ∀ f ∈ item.files, r.fileId ≠ f.id

theorem Examinable.recordedFor {s : Store} (h : Examinable s item)
    {results : List ExtractionResult} (hresults : ∀ r ∈ results, r.itemId = item.id) :
    Store.recordedFor { s with results := s.results ++ results } item.id = results := by
  rw [Store.recordedFor, List.filter_append]
  have hnone : s.results.filter (·.itemId == item.id) = [] := by
    rw [List.filter_eq_nil_iff]
    intro r hr
    simpa using (h.new r hr).1
  have hall : results.filter (·.itemId == item.id) = results := by
    rw [List.filter_eq_self]
    intro r hr
    simpa using hresults r hr
  rw [hnone, hall, List.nil_append]

/-- The results of an examination are for the item's own files. -/
theorem Examinable.results {s : Store} (h : Examinable s item) (policy : Policy) (disk : Disk)
    (keys : Option (List String)) (calls : Nat) :
    (∀ r ∈ (examination policy disk item keys calls).results, r.itemId = item.id ∧
        ∃ f ∈ item.files, f.id = r.fileId) ∧
      ((examination policy disk item keys calls).results.map (·.fileId)).Nodup := by
  have hfiles := examination_files policy disk item keys calls
  constructor
  · intro r hr
    obtain ⟨f, hf, hsame⟩ := List.mem_map.mp (hfiles.subset (List.mem_map_of_mem hr))
    obtain ⟨hid, hitem⟩ := Prod.mk.inj hsame
    exact ⟨hitem.symm.trans (h.owned f hf), f, hf, hid⟩
  · have hids := hfiles.map Prod.fst
    simp only [List.map_map, Function.comp_def] at hids
    exact List.Nodup.sublist hids.sublist h.distinct

/-- Examining an item records what the examination comes to, and gives its
verdict. -/
theorem examine_run (policy : Policy) (h : Examinable d.store item) (keys : Option (List String)) :
    (examine policy item keys).run d =
      (.ok (examination policy d.disk item keys d.calls).verdict,
        { d with
          store := { d.store with results := d.store.results ++
            (examination policy d.disk item keys d.calls).results }
          calls := (examination policy d.disk item keys d.calls).calls }) := by
  obtain ⟨hmem, -⟩ := Store.item?_mem h.there
  have hextract := extractFiles_run policy item item.files
    (fun r hr f hf => (h.new r hr).2 f hf) h.distinct fun f hf =>
      ⟨Store.hasFile_iff.mpr ⟨item, hmem, f, hf, rfl⟩, item, by rw [h.owned f hf]; exact h.there⟩
  obtain ⟨hresults, honce⟩ := h.results policy d.disk keys d.calls
  unfold examine
  by_cases hprimary : item.primaryFile?.isNone = true
  · simp only [examination, hprimary, if_true, List.append_nil]
    rfl
  · simp only [examination, hprimary, Bool.false_eq_true, if_false] at hresults honce ⊢
    rw [run_bind_ok hextract]
    cases (extraction policy d.disk (DocumentConfig.ofFile item) item.files d.calls).verdict with
    | error reason => rfl
    | ok u =>
      -- what is loaded for the check are the results just recorded
      have hperm := Store.resultsOf_perm { d.store with results := d.store.results ++
        (extraction policy d.disk (DocumentConfig.ofFile item) item.files d.calls).results } item.id
      rw [h.recordedFor fun r hr => (hresults r hr).1] at hperm
      dsimp only
      rw [checkResults_run, judge, ← ofResults_perm hperm.symm honce]
      rfl

end

end Service

end Collate
