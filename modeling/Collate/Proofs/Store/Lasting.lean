import Collate.Proofs.Store.Slots

/-!
History is not rewritten. A call does at most one thing to an item that is kept:
it files a document with it, starts it or settles it, each of them only while the
item has not got further. So items never leave, their status goes one way, and a
final item stays as it is; for the same reason an item is started and resolved
once. Results are only ever added, at most one for a file.
-/

namespace Collate

/-- A status stays, or goes one step on. -/
def ItemStatus.Moves (a b : ItemStatus) : Prop :=
  b = a ∨ a = .pending ∧ b = .processing ∨ a = .processing ∧ b.isFinal = true

namespace Store

variable {s s' t : Store}

/-- What a call may do to an item that is kept. -/
inductive Evolves : Item → Item → Prop
  | stays (i : Item) : Evolves i i
  | filed {i : Item} (file : FileRef) (hopen : i.status.isFinal = false) :
      Evolves i { i with files := i.files ++ [file] }
  | started {i : Item} (now : Time.Timestamp) (hpending : i.status = .pending) :
      Evolves i { i with status := .processing, startedAt := some now }
  | settled {i : Item} (held : Item) (hprocessing : i.status = .processing)
      (hfinal : held.status.isFinal = true) : Evolves i (settle held i)

theorem Evolves.id {i i' : Item} (h : Evolves i i') : i'.id = i.id := by
  cases h <;> rfl

theorem Evolves.moves {i i' : Item} (h : Evolves i i') : i.status.Moves i'.status := by
  cases h with
  | stays => exact .inl rfl
  | filed => exact .inl rfl
  | started _ hpending => exact .inr (.inl ⟨hpending, rfl⟩)
  | settled _ hprocessing hfinal => exact .inr (.inr ⟨hprocessing, hfinal⟩)

theorem Evolves.eq_of_final {i i' : Item} (h : Evolves i i') (hfinal : i.status.isFinal = true) :
    i' = i := by
  cases h with
  | stays => rfl
  | filed _ hopen => simp [hopen] at hfinal
  | started _ hpending => simp [hpending, ItemStatus.isFinal] at hfinal
  | settled _ hprocessing => simp [hprocessing, ItemStatus.isFinal] at hfinal

/-- No status leads back to pending. -/
theorem Evolves.ne_pending {i i' : Item} (h : Evolves i i') (hstarted : i.status ≠ .pending) :
    i'.status ≠ .pending := by
  rcases h.moves with hsame | ⟨-, hprocessing⟩ | ⟨-, hfinal⟩
  · exact hsame ▸ hstarted
  · simp [hprocessing]
  · rintro hpending
    simp [hpending, ItemStatus.isFinal] at hfinal

/-- What a call leaves of a store: its items, evolved, and its results, perhaps
with one for a file that had none. -/
structure Lasts (s s' : Store) : Prop where
  items : ∀ i ∈ s.items, ∃ i' ∈ s'.items, Evolves i i'
  results : s'.results = s.results ∨
    ∃ result, (∀ other ∈ s.results, other.fileId ≠ result.fileId) ∧
      s'.results = s.results ++ [result]

theorem Lasts.of_same (hitems : s'.items = s.items) (hresults : s'.results = s.results) :
    s.Lasts s' :=
  ⟨fun i hi => ⟨i, hitems ▸ hi, .stays i⟩, .inl hresults⟩

theorem Lasts.of_insert {item : Item} (hitems : s'.items = s.items ++ [item])
    (hresults : s'.results = s.results) : s.Lasts s' :=
  ⟨fun i hi => ⟨i, hitems ▸ List.mem_append_left _ hi, .stays i⟩, .inl hresults⟩

/-- A change of one item that evolves it. -/
theorem Lasts.of_update (h : s.Keyed) {i : Item} (hi : i ∈ s.items) {change : Item → Item}
    (hevolves : Evolves i (change i)) (hitems : s'.items = (s.updateItem i.id change).items)
    (hresults : s'.results = s.results) : s.Lasts s' := by
  refine ⟨fun j hj => ?_, .inl hresults⟩
  rw [hitems]
  by_cases hid : j.id = i.id
  · obtain rfl : j = i := h.item_unique hj hi hid
    exact ⟨change j, mem_updateItem.mpr ⟨j, hj, by simp⟩, hevolves⟩
  · exact ⟨j, mem_updateItem.mpr ⟨j, hj, if_neg (by simpa using hid)⟩, .stays j⟩

theorem saveTemplate_results {template : Template} {id : Int}
    (hok : saveTemplate template s = .ok (id, s')) : s'.results = s.results := by
  simp only [saveTemplate, Except.bind_eq_ok] at hok
  obtain ⟨_, -, hok⟩ := hok
  split at hok
  · cases hok
    rfl
  · cases hok
    rfl

theorem saveBinding_results {binding : Binding} (hok : saveBinding binding s = .ok ((), s')) :
    s'.results = s.results := by
  unfold saveBinding at hok
  split at hok
  · cases hok
    rfl
  · cases hok
    rfl

/-- A result is added only if its file has none. -/
theorem putResult_results {result : ExtractionResult} {put : Bool}
    (hok : putResult result s = .ok (put, s')) :
    s'.results = s.results ∨ (∀ other ∈ s.results, other.fileId ≠ result.fileId) ∧
      s'.results = s.results ++ [result] := by
  unfold putResult at hok
  split at hok
  · cases hok
    exact .inl rfl
  · rename_i hnone
    split at hok
    · cases hok
      exact .inr ⟨by simpa using hnone, rfl⟩
    · cases hok

/-- Every accepted call leaves items and results in this way. -/
theorem Call.lasts (h : s.Keyed) {c : Call} (hok : c.perform s = .ok s') : s.Lasts s' := by
  cases c with
  | createOrder id name =>
    obtain ⟨_, hok⟩ := map_snd_eq_ok.mp hok
    obtain ⟨-, rfl⟩ := createOrder_ok hok
    exact .of_same rfl rfl
  | addItem item =>
    obtain ⟨_, hok⟩ := map_snd_eq_ok.mp hok
    obtain ⟨-, -, -, -, -, rfl⟩ := addItem_ok hok
    exact .of_insert rfl rfl
  | attachFile file =>
    obtain ⟨_, hok⟩ := map_snd_eq_ok.mp hok
    obtain ⟨i, -, hi, -, -, hopen, -, rfl⟩ := attachFile_ok hok
    exact .of_update h (item?_mem hi).1 (.filed file hopen) rfl rfl
  | setMappingKeys id keys =>
    obtain ⟨_, hok⟩ := map_snd_eq_ok.mp hok
    obtain ⟨-, rfl⟩ := setMappingKeys_ok hok
    exact .of_same rfl rfl
  | setMappingFile id reference =>
    obtain ⟨_, hok⟩ := map_snd_eq_ok.mp hok
    obtain rfl := setMappingFile_ok hok
    exact .of_same rfl rfl
  | submit id =>
    obtain ⟨_, hok⟩ := map_snd_eq_ok.mp hok
    obtain ⟨-, -, -, -, -, rfl⟩ := submit_ok hok
    exact .of_same rfl rfl
  | begin id now =>
    obtain ⟨_, hok⟩ := map_snd_eq_ok.mp hok
    obtain ⟨i, hi, ⟨hpending, -, rfl⟩ | ⟨-, -, rfl⟩⟩ := begin_ok hok
    · obtain ⟨hmem, rfl⟩ := item?_mem hi
      exact .of_update h hmem (.started now hpending) rfl rfl
    · exact .of_same rfl rfl
  | putResult result =>
    obtain ⟨_, hok⟩ := map_snd_eq_ok.mp hok
    have hitems := (putResult_ok hok).2.1
    rcases putResult_results hok with hsame | ⟨hnone, hadded⟩
    · exact .of_same hitems hsame
    · exact ⟨fun i hi => ⟨i, hitems ▸ hi, .stays i⟩, .inr ⟨result, hnone, hadded⟩⟩
  | resolve held =>
    obtain ⟨_, hok⟩ := map_snd_eq_ok.mp hok
    obtain ⟨hfinal, ⟨i, hi, hprocessing⟩, rfl, -⟩ := resolve_ok hok
    obtain ⟨hmem, hid⟩ := item?_mem hi
    exact .of_update h hmem (.settled held hprocessing hfinal) (by rw [hid]; rfl) rfl
  | moveOrder id source target =>
    obtain ⟨_, hok⟩ := map_snd_eq_ok.mp hok
    obtain ⟨-, ⟨-, -, -, -, rfl⟩ | ⟨-, rfl⟩⟩ := moveOrder_ok hok
    · exact .of_same rfl rfl
    · exact .of_same rfl rfl
  | rollUp snapshot target =>
    obtain ⟨_, hok⟩ := map_snd_eq_ok.mp hok
    obtain ⟨-, -, ⟨-, -, -, -, rfl⟩ | ⟨-, rfl⟩⟩ := rollUp_ok hok
    · exact .of_same rfl rfl
    · exact .of_same rfl rfl
  | noteError id error =>
    obtain ⟨_, hok⟩ := (map_snd_eq_ok (x := Store.noteError id error s)).mp hok
    obtain rfl := noteError_ok hok
    exact .of_same rfl rfl
  | retry next =>
    obtain ⟨_, hok⟩ := map_snd_eq_ok.mp hok
    obtain ⟨-, -, -, -, -, -, -, -, -, -, rfl, -⟩ := retry_ok hok
    exact .of_insert rfl rfl
  | saveMerged id table =>
    obtain ⟨_, hok⟩ := map_snd_eq_ok.mp hok
    obtain ⟨-, rfl⟩ := saveMerged_ok hok
    exact .of_same rfl rfl
  | setReportPaths id paths =>
    obtain ⟨_, hok⟩ := (map_snd_eq_ok (x := Store.setReportPaths id paths s)).mp hok
    obtain rfl := setReportPaths_ok hok
    exact .of_same rfl rfl
  | saveTemplate template =>
    obtain ⟨_, hok⟩ := map_snd_eq_ok.mp hok
    exact .of_same (saveTemplate_ok hok).2.1 (saveTemplate_results hok)
  | saveBinding binding =>
    obtain ⟨_, hok⟩ := map_snd_eq_ok.mp hok
    exact .of_same (saveBinding_ok hok).2.1 (saveBinding_results hok)

theorem Call.after_lasts (h : s.Keyed) (c : Call) : s.Lasts (c.after s) := by
  unfold Call.after
  split
  · rename_i s' hok
    exact Call.lasts h hok
  · exact .of_same rfl rfl

/-! Calls later on. -/

structure Persists (s s' : Store) : Prop where
  items : ∀ i ∈ s.items, ∃ i' ∈ s'.items, i'.id = i.id ∧ (i.status.isFinal = true → i' = i)
  results : s.results <+: s'.results

theorem Persists.refl (s : Store) : s.Persists s :=
  ⟨fun i hi => ⟨i, hi, rfl, fun _ => rfl⟩, List.prefix_refl _⟩

theorem Lasts.persists (h : s.Lasts s') : s.Persists s' := by
  refine ⟨fun i hi => ?_, ?_⟩
  · obtain ⟨i', hi', hevolves⟩ := h.items i hi
    exact ⟨i', hi', hevolves.id, hevolves.eq_of_final⟩
  · rcases h.results with hsame | ⟨result, -, hadded⟩
    · exact hsame ▸ List.prefix_refl _
    · exact hadded ▸ List.prefix_append _ _

theorem Persists.trans (h : s.Persists s') (h' : s'.Persists t) : s.Persists t := by
  refine ⟨fun i hi => ?_, h.results.trans h'.results⟩
  obtain ⟨i', hi', hid, hfinal⟩ := h.items i hi
  obtain ⟨i'', hi'', hid', hfinal'⟩ := h'.items i' hi'
  refine ⟨i'', hi'', hid'.trans hid, fun hstatus => ?_⟩
  obtain rfl := hfinal hstatus
  exact hfinal' hstatus

/-- Of results for different files one is for a given file. -/
theorem filter_file_eq_singleton {results : List ExtractionResult} {result : ExtractionResult}
    (hnodup : (results.map (·.fileId)).Nodup) (hmem : result ∈ results) :
    results.filter (·.fileId == result.fileId) = [result] := by
  induction results with
  | nil => cases hmem
  | cons first rest ih =>
    rw [List.map_cons, List.nodup_cons] at hnodup
    rcases List.mem_cons.mp hmem with rfl | hrest
    · have hnone : rest.filter (·.fileId == result.fileId) = [] := by
        rw [List.filter_eq_nil_iff]
        intro other hother heq
        exact hnodup.1 (beq_iff_eq.mp heq ▸ List.mem_map_of_mem hother)
      rw [List.filter_cons_of_pos (by simp), hnone]
    · have hne : first.fileId ≠ result.fileId := fun heq =>
        hnodup.1 (heq ▸ List.mem_map_of_mem hrest)
      rw [List.filter_cons_of_neg (by simpa using hne), ih hnodup.2 hrest]

theorem Lasts.results_nodup (h : s.Lasts s') (hnodup : (s.results.map (·.fileId)).Nodup) :
    (s'.results.map (·.fileId)).Nodup := by
  rcases h.results with hsame | ⟨result, hnone, hadded⟩
  · rwa [hsame]
  · rw [hadded]
    exact nodup_map_concat hnodup hnone

variable {b b' : Bench} {past : List (Store × Call)}

theorem Bench.Step.lasts (h : Run b past) (hstep : b.Step b') : b.store.Lasts b'.store := by
  cases hstep with
  | make hmakes => exact .of_same rfl rfl
  | call c hheld => exact Call.after_lasts h.roomy.toKeyed c

theorem Run.persists (h : Run b past) (hon : b.LeadsTo b') :
    (∃ past', Run b' past') ∧ b.store.Persists b'.store := by
  induction hon with
  | refl => exact ⟨⟨past, h⟩, .refl _⟩
  | tail _ hstep ih =>
    obtain ⟨⟨past', hrun⟩, hpersists⟩ := ih
    exact ⟨(hrun.step hstep).1, hpersists.trans (hstep.lasts hrun).persists⟩

theorem Run.results_nodup (h : Run b past) : (b.store.results.map (·.fileId)).Nodup := by
  induction h with
  | start => exact List.nodup_nil
  | make _ _ ih => exact ih
  | call c hrun _ ih => exact (Call.after_lasts hrun.roomy.toKeyed c).results_nodup ih

/-! Calls so far. -/

def Call.started? (s : Store) : Call → Option String
  | begin id now =>
    match Store.begin id now s with
    | .ok (some _, _) => some id
    | _ => none
  | _ => none

def Call.resolved? (s : Store) : Call → Option String
  | resolve held =>
    match Store.resolve held s with
    | .ok _ => some held.id
    | .error _ => none
  | _ => none

def startedIn (past : List (Store × Call)) : List String :=
  past.filterMap fun entry => entry.2.started? entry.1

def resolvedIn (past : List (Store × Call)) : List String :=
  past.filterMap fun entry => entry.2.resolved? entry.1

/-- The ids are those of different items, all with a status of some kind. -/
structure Marks (s : Store) (P : ItemStatus → Prop) (ids : List String) : Prop where
  nodup : ids.Nodup
  marked : ∀ id ∈ ids, ∃ i ∈ s.items, i.id = id ∧ P i.status

/-- One more item may be marked that was not before. -/
theorem Marks.add {P : ItemStatus → Prop} {ids : List String} {new : Option String}
    (h : s.Marks P ids) (hkeyed : s.Keyed) (hlasts : s.Lasts s')
    (hstays : ∀ i i', Evolves i i' → P i.status → P i'.status)
    (hnew : ∀ id, new = some id → (∃ i ∈ s.items, i.id = id ∧ ¬ P i.status) ∧
      ∃ i ∈ s'.items, i.id = id ∧ P i.status) : s'.Marks P (ids ++ new.toList) := by
  have hold : ∀ id ∈ ids, ∃ i ∈ s'.items, i.id = id ∧ P i.status := by
    intro id hid
    obtain ⟨i, hi, rfl, hP⟩ := h.marked id hid
    obtain ⟨i', hi', hevolves⟩ := hlasts.items i hi
    exact ⟨i', hi', hevolves.id, hstays i i' hevolves hP⟩
  cases new with
  | none => exact ⟨by simpa using h.nodup, by simpa using hold⟩
  | some id =>
    obtain ⟨⟨i, hi, hid, hunmarked⟩, hmarked⟩ := hnew id rfl
    have hfresh : id ∉ ids := by
      intro hmem
      obtain ⟨j, hj, hjd, hP⟩ := h.marked id hmem
      rw [hkeyed.item_unique hj hi (hjd.trans hid.symm)] at hP
      exact hunmarked hP
    refine ⟨?_, ?_⟩
    · rw [Option.toList_some, List.nodup_append]
      refine ⟨h.nodup, List.nodup_singleton id, ?_⟩
      rintro a ha b hb rfl
      exact hfresh (List.mem_singleton.mp hb ▸ ha)
    · intro other hother
      rw [Option.toList_some, List.mem_append, List.mem_singleton] at hother
      rcases hother with hpast | rfl
      · exact hold other hpast
      · exact hmarked

/-- An item that is started was pending and is not any more. -/
theorem Call.started?_some {c : Call} {id : String} (h : c.started? s = some id) :
    (∃ i ∈ s.items, i.id = id ∧ ¬ i.status ≠ .pending) ∧
      ∃ i ∈ (c.after s).items, i.id = id ∧ i.status ≠ .pending := by
  cases c with
  | begin id now =>
    simp only [Call.started?] at h
    split at h
    · rename_i started s' hok
      cases h
      have hafter : (Call.begin id now).after s = s' := by
        simp [Call.after, Call.perform, hok, Except.map]
      obtain ⟨i, hi, ⟨hpending, -, rfl⟩ | ⟨-, hnone, -⟩⟩ := begin_ok hok
      · obtain ⟨hmem, rfl⟩ := item?_mem hi
        refine ⟨⟨i, hmem, rfl, by simp [hpending]⟩, ?_⟩
        rw [hafter]
        exact ⟨_, mem_updateItem.mpr ⟨i, hmem, if_pos (by simp)⟩, rfl, by simp⟩
      · cases hnone
    · cases h
  | _ => cases h

/-- An item that is resolved was not final and is so afterwards. -/
theorem Call.resolved?_some {c : Call} {id : String} (h : c.resolved? s = some id) :
    (∃ i ∈ s.items, i.id = id ∧ ¬ i.status.isFinal = true) ∧
      ∃ i ∈ (c.after s).items, i.id = id ∧ i.status.isFinal = true := by
  cases c with
  | resolve held =>
    simp only [Call.resolved?] at h
    split at h
    · rename_i result hok
      obtain ⟨order, s'⟩ := result
      cases h
      have hafter : (Call.resolve held).after s = s' := by
        simp [Call.after, Call.perform, hok, Except.map]
      obtain ⟨hfinal, ⟨i, hi, hprocessing⟩, rfl, -⟩ := resolve_ok hok
      obtain ⟨hmem, hid⟩ := item?_mem hi
      refine ⟨⟨i, hmem, hid, by simp [hprocessing, ItemStatus.isFinal]⟩, ?_⟩
      rw [hafter]
      exact ⟨_, mem_updateItem.mpr ⟨i, hmem, if_pos (by simpa using hid)⟩, hid, hfinal⟩
    · cases h
  | _ => cases h

theorem Run.marks_started (h : Run b past) : b.store.Marks (· ≠ .pending) (startedIn past) := by
  induction h with
  | start => exact ⟨List.nodup_nil, nofun⟩
  | make _ _ ih => exact ih
  | @call b past c hrun _ ih =>
    have hkeyed := hrun.roomy.toKeyed
    have hlist : startedIn (past ++ [(b.store, c)]) =
        startedIn past ++ (c.started? b.store).toList := by
      cases hnew : c.started? b.store <;> simp [startedIn, hnew]
    rw [hlist]
    exact ih.add hkeyed (Call.after_lasts hkeyed c) (fun _ _ h => h.ne_pending)
      fun _ => Call.started?_some

theorem Run.marks_resolved (h : Run b past) :
    b.store.Marks (·.isFinal = true) (resolvedIn past) := by
  induction h with
  | start => exact ⟨List.nodup_nil, nofun⟩
  | make _ _ ih => exact ih
  | @call b past c hrun _ ih =>
    have hkeyed := hrun.roomy.toKeyed
    have hlist : resolvedIn (past ++ [(b.store, c)]) =
        resolvedIn past ++ (c.resolved? b.store).toList := by
      cases hnew : c.resolved? b.store <;> simp [resolvedIn, hnew]
    rw [hlist]
    refine ih.add hkeyed (Call.after_lasts hkeyed c) ?_ fun _ => Call.resolved?_some
    intro i i' hevolves hfinal
    rwa [hevolves.eq_of_final hfinal]

/-- However the calls follow one another: no item is started or resolved twice;
every step takes an item at most one status on; and whatever is called later, no
item is lost, a final item stays as it is with all its files, and the result of a
file stays its only one, further ones being passed over. -/
theorem Run.history_stays (h : Run b past) :
    (startedIn past).Nodup ∧ (resolvedIn past).Nodup ∧
    (∀ b', b.Step b' → ∀ i ∈ b.store.items, ∃ i', b'.store.item? i.id = some i' ∧
      i.status.Moves i'.status) ∧
    ∀ b', b.LeadsTo b' →
      (∀ i ∈ b.store.items, ∃ i', b'.store.item? i.id = some i' ∧
        (i.status.isFinal = true → i' = i)) ∧
      ∀ result ∈ b.store.results,
        b'.store.results.filter (·.fileId == result.fileId) = [result] ∧
        ∀ other, other.fileId = result.fileId →
          putResult other b'.store = .ok (false, b'.store) := by
  refine ⟨h.marks_started.nodup, h.marks_resolved.nodup, ?_, ?_⟩
  · intro b' hstep i hi
    obtain ⟨past', hrun⟩ := (h.step hstep).1
    obtain ⟨i', hi', hevolves⟩ := (hstep.lasts h).items i hi
    exact ⟨i', hevolves.id ▸ item?_of_nodup hrun.roomy.items_nodup hi', hevolves.moves⟩
  · intro b' hon
    obtain ⟨⟨past', hrun⟩, hpersists⟩ := h.persists hon
    refine ⟨fun i hi => ?_, fun result hresult => ?_⟩
    · obtain ⟨i', hi', hid, hfinal⟩ := hpersists.items i hi
      exact ⟨i', hid ▸ item?_of_nodup hrun.roomy.items_nodup hi', hfinal⟩
    · have hmem : result ∈ b'.store.results := hpersists.results.subset hresult
      refine ⟨filter_file_eq_singleton hrun.results_nodup hmem, fun other hother => ?_⟩
      have hthere : b'.store.results.any (·.fileId == other.fileId) = true :=
        List.any_eq_true.mpr ⟨result, hmem, by simp [hother]⟩
      simp [putResult, hthere]

/-! An item with one file that is worked on. -/

private def plainScan : Item := Item.create "i" "o" "acme" "invoice" "scan" ⟨0, 0⟩

private def scanFile : FileRef := FileRef.create "f" "i" .primary "scan.csv" 3 "blob"

private def filedScan : Item := { plainScan with files := [scanFile] }

private def begunScan : Item := { filedScan with status := .processing, startedAt := some ⟨1, 0⟩ }

private def doneScan : Item := { begunScan with status := .completed, endedAt := some ⟨2, 0⟩ }

private def readScan : ExtractionResult := ⟨"f", "i", .payload "[]"⟩

private def benchDone : Bench where
  store := { Store.empty with
    orders := [{ Order.create "o" none with total := 1, completed := 1 }]
    items := [doneScan]
    results := [readScan] }
  held := [doneScan, begunScan, filedScan, plainScan]

private def callsDone : List Call :=
  [.createOrder "o" none, .addItem filedScan, .begin "i" ⟨1, 0⟩, .begin "i" ⟨1, 0⟩,
    .putResult readScan, .resolve doneScan, .resolve doneScan]

private theorem run_benchDone : ∃ past, Run benchDone past ∧ past.map (·.2) = callsDone := by
  have hfile : plainScan.withFile scanFile = .ok filedScan := rfl
  have hstart : filedScan.start ⟨1, 0⟩ = .ok begunScan := rfl
  have hcomplete : begunScan.complete ⟨2, 0⟩ = .ok doneScan := rfl
  have h := Run.start
  have h := h.call (.createOrder "o" none) (by simp [Call.handed?])
  have h := h.make (.create "i" "o" "acme" "invoice" "scan" ⟨0, 0⟩ (by simp))
  have h := h.make (.withFile (by simp [plainScan]) hfile)
  have h := h.call (.addItem filedScan) (by simp [Call.handed?])
  have h := h.call (.begin "i" ⟨1, 0⟩) (by simp [Call.handed?])
  have h := h.call (.begin "i" ⟨1, 0⟩) (by simp [Call.handed?])
  have h := h.call (.putResult readScan) (by simp [Call.handed?])
  have h := h.make (.start (by simp) hstart)
  have h := h.make (.complete (by simp) hcomplete)
  have h := h.call (.resolve doneScan) (by simp [Call.handed?])
  have h := h.call (.resolve doneScan) (by simp [Call.handed?])
  exact ⟨_, h, rfl⟩

/-- A second start and a second resolution are among the calls; another file and
another result come too late. -/
theorem Run.history_stays_completed : ∃ b past b', Run b past ∧ b.LeadsTo b' ∧
    past.map (·.2) = callsDone ∧ (startedIn past).Nodup ∧ (resolvedIn past).Nodup ∧
    b.store.items = [doneScan] ∧ b'.store.item? "i" = some doneScan ∧
    b'.store.results.filter (·.fileId == "f") = [readScan] := by
  obtain ⟨past, h, hcalls⟩ := run_benchDone
  have hon := Relation.ReflTransGen.refl (a := benchDone) (r := Bench.Step)
  have hon := hon.tail (.call (.attachFile { scanFile with id := "g" }) (by simp [Call.handed?]))
  have hon := hon.tail (.call (.putResult { readScan with outcome := .failed "torn" })
    (by simp [Call.handed?]))
  obtain ⟨hstarted, hresolved, -, hlater⟩ := h.history_stays
  obtain ⟨hitems, hresults⟩ := hlater _ hon
  obtain ⟨i, hi, hsame⟩ := hitems doneScan List.mem_cons_self
  obtain rfl := hsame rfl
  exact ⟨_, _, _, h, hon, hcalls, hstarted, hresolved, rfl, hi,
    (hresults readScan List.mem_cons_self).1⟩

end Store

end Collate
