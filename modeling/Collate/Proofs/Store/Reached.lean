import Collate.Proofs.Store.Lasting
import Collate.Proofs.Store.Tidy

/-!
Stores that operations lead to, whoever performs them, in whatever order and with
whatever arguments. Nothing is promised of counters and statuses there, but rows
are found under their ids, items are in orders, and a result is about a file that
is there.
-/

namespace Collate.Store

variable {s s' : Store}

/-- Stores that operations lead to. An operation that is refused changes
nothing. -/
inductive Reached : Store → Prop
  | empty : Reached Store.empty
  | call {s : Store} (c : Call) : Reached s → Reached (c.after s)

theorem Call.after_ok {c : Call} (hok : c.perform s = .ok s') : c.after s = s' := by
  rw [Call.after, hok]

theorem Reached.perform (h : s.Reached) {c : Call} (hok : c.perform s = .ok s') : s'.Reached := by
  rw [← Call.after_ok hok]
  exact h.call c

/-- An operation that takes place. -/
theorem Reached.of_ok {α : Type} {op : StoreOp α} {a : α} (h : s.Reached) (c : Call)
    (hc : c.perform s = (op s).map (·.2)) (hok : op s = .ok (a, s')) : s'.Reached :=
  h.perform (c := c) (by rw [hc, hok]; rfl)

theorem Reached.calls (h : s.Reached) (calls : List Call) : (calls.foldl Call.after s).Reached := by
  induction calls generalizing s with
  | nil => exact h
  | cons c rest ih => exact ih (h.call c)

/-! Ids. -/

/-- A retry is put into an order that is there, wherever the failed item is. -/
theorem Keyed.retry (h : s.Keyed) {next : Item} {o : Order}
    (hok : Store.retry next s = .ok (o, s')) : s'.Keyed := by
  obtain ⟨-, failed, -, -, -, -, -, -, -, hadmits, rfl, -⟩ := retry_ok hok
  obtain ⟨p, hp⟩ := hadmits.ordered
  obtain ⟨hmem, hid⟩ := order?_mem hp
  have hplaced := List.mem_map_of_mem (f := (·.id)) hmem
  rw [updateOrder_ids reopen_id, hid] at hplaced
  exact h.insert rfl (updateOrder_ids reopen_id) hadmits.new hplaced

theorem Keyed.resolve (h : s.Keyed) {held : Item} {o : Order}
    (hok : Store.resolve held s = .ok (o, s')) : s'.Keyed := by
  obtain ⟨-, -, rfl, -⟩ := resolve_ok hok
  exact h.of_ids (updateOrder_ids fun o => (countResolution_counters _ o).1)
    (updateItem_places (settle_keeps held))

/-- No operation repeats an id or loses the order of an item, whatever item it is
handed. -/
theorem Keyed.call (h : s.Keyed) {c : Call} (hok : c.perform s = .ok s') : s'.Keyed := by
  have hother : c.handed? = none → s'.Keyed := fun hnone =>
    h.change (Call.change h (by simp [hnone]) hok)
  cases c with
  | addItem item =>
    obtain ⟨_, hok⟩ := map_snd_eq_ok.mp hok
    exact h.change (change_addItem hok)
  | resolve held =>
    obtain ⟨_, hok⟩ := map_snd_eq_ok.mp hok
    exact h.resolve hok
  | retry next =>
    obtain ⟨_, hok⟩ := map_snd_eq_ok.mp hok
    exact h.retry hok
  | _ => exact hother rfl

theorem Reached.keyed (h : s.Reached) : s.Keyed := by
  induction h with
  | empty => exact empty_keyed
  | @call s c _ ih =>
    unfold Call.after
    split
    · rename_i s' hok
      exact ih.call hok
    · exact ih

/-! Results. -/

/-- A result is recorded only for a file that is there. -/
theorem putResult_file {result : ExtractionResult} {put : Bool}
    (hok : putResult result s = .ok (put, s')) :
    s'.results = s.results ∨ s.hasFile result.fileId = true ∧
      s'.results = s.results ++ [result] := by
  unfold putResult at hok
  split at hok
  · cases hok
    exact .inl rfl
  · split at hok
    · rename_i hthere
      cases hok
      exact .inr ⟨(Bool.and_eq_true_iff.mp hthere).1, rfl⟩
    · cases hok

structure SameShelves (s s' : Store) : Prop where
  results : s'.results = s.results
  templates : s'.templates = s.templates
  nextTemplateId : s'.nextTemplateId = s.nextTemplateId
  bindings : s'.bindings = s.bindings

/-- Calls about orders and items leave results, templates and bindings alone. -/
theorem Call.shelves {c : Call} (hok : c.perform s = .ok s') :
    s.SameShelves s' ∨ (∃ result, c = .putResult result) ∨
      (∃ template, c = .saveTemplate template) ∨ ∃ binding, c = .saveBinding binding := by
  cases c with
  | putResult result => exact .inr (.inl ⟨result, rfl⟩)
  | saveTemplate template => exact .inr (.inr (.inl ⟨template, rfl⟩))
  | saveBinding binding => exact .inr (.inr (.inr ⟨binding, rfl⟩))
  | createOrder id name =>
    obtain ⟨_, hok⟩ := map_snd_eq_ok.mp hok
    obtain ⟨-, rfl⟩ := createOrder_ok hok
    exact .inl ⟨rfl, rfl, rfl, rfl⟩
  | addItem item =>
    obtain ⟨_, hok⟩ := map_snd_eq_ok.mp hok
    obtain ⟨-, -, -, -, -, rfl⟩ := addItem_ok hok
    exact .inl ⟨rfl, rfl, rfl, rfl⟩
  | attachFile file =>
    obtain ⟨_, hok⟩ := map_snd_eq_ok.mp hok
    obtain ⟨-, -, -, -, -, -, -, rfl⟩ := attachFile_ok hok
    exact .inl ⟨rfl, rfl, rfl, rfl⟩
  | setMappingKeys id keys =>
    obtain ⟨_, hok⟩ := map_snd_eq_ok.mp hok
    obtain ⟨-, rfl⟩ := setMappingKeys_ok hok
    exact .inl ⟨rfl, rfl, rfl, rfl⟩
  | setMappingFile id reference =>
    obtain ⟨_, hok⟩ := map_snd_eq_ok.mp hok
    obtain rfl := setMappingFile_ok hok
    exact .inl ⟨rfl, rfl, rfl, rfl⟩
  | submit id =>
    obtain ⟨_, hok⟩ := map_snd_eq_ok.mp hok
    obtain ⟨-, -, -, -, -, rfl⟩ := submit_ok hok
    exact .inl ⟨rfl, rfl, rfl, rfl⟩
  | begin id now =>
    obtain ⟨_, hok⟩ := map_snd_eq_ok.mp hok
    obtain ⟨-, -, ⟨-, -, rfl⟩ | ⟨-, -, rfl⟩⟩ := begin_ok hok
    · exact .inl ⟨rfl, rfl, rfl, rfl⟩
    · exact .inl ⟨rfl, rfl, rfl, rfl⟩
  | resolve held =>
    obtain ⟨_, hok⟩ := map_snd_eq_ok.mp hok
    obtain ⟨-, -, rfl, -⟩ := resolve_ok hok
    exact .inl ⟨rfl, rfl, rfl, rfl⟩
  | moveOrder id source target =>
    obtain ⟨_, hok⟩ := map_snd_eq_ok.mp hok
    obtain ⟨-, ⟨-, -, -, -, rfl⟩ | ⟨-, rfl⟩⟩ := moveOrder_ok hok
    · exact .inl ⟨rfl, rfl, rfl, rfl⟩
    · exact .inl ⟨rfl, rfl, rfl, rfl⟩
  | rollUp snapshot target =>
    obtain ⟨_, hok⟩ := map_snd_eq_ok.mp hok
    obtain ⟨-, -, ⟨-, -, -, -, rfl⟩ | ⟨-, rfl⟩⟩ := rollUp_ok hok
    · exact .inl ⟨rfl, rfl, rfl, rfl⟩
    · exact .inl ⟨rfl, rfl, rfl, rfl⟩
  | noteError id error =>
    obtain ⟨_, hok⟩ := (map_snd_eq_ok (x := Store.noteError id error s)).mp hok
    obtain rfl := noteError_ok hok
    exact .inl ⟨rfl, rfl, rfl, rfl⟩
  | retry next =>
    obtain ⟨_, hok⟩ := map_snd_eq_ok.mp hok
    obtain ⟨-, -, -, -, -, -, -, -, -, -, rfl, -⟩ := retry_ok hok
    exact .inl ⟨rfl, rfl, rfl, rfl⟩
  | saveMerged id table =>
    obtain ⟨_, hok⟩ := map_snd_eq_ok.mp hok
    obtain ⟨-, rfl⟩ := saveMerged_ok hok
    exact .inl ⟨rfl, rfl, rfl, rfl⟩
  | setReportPaths id paths =>
    obtain ⟨_, hok⟩ := (map_snd_eq_ok (x := Store.setReportPaths id paths s)).mp hok
    obtain rfl := setReportPaths_ok hok
    exact .inl ⟨rfl, rfl, rfl, rfl⟩

theorem Call.results {c : Call} (hok : c.perform s = .ok s') : s'.results = s.results ∨
    ∃ result, s.hasFile result.fileId = true ∧ s'.results = s.results ++ [result] := by
  rcases Call.shelves hok with
    hsame | ⟨result, rfl⟩ | ⟨template, rfl⟩ | ⟨binding, rfl⟩
  · exact .inl hsame.results
  · obtain ⟨_, hok⟩ := map_snd_eq_ok.mp hok
    exact (putResult_file hok).imp_right fun hadded => ⟨result, hadded⟩
  · obtain ⟨_, hok⟩ := map_snd_eq_ok.mp hok
    exact .inl (saveTemplate_results hok)
  · obtain ⟨_, hok⟩ := map_snd_eq_ok.mp hok
    exact .inl (saveBinding_results hok)

/-- No file is taken from an item. -/
theorem Evolves.files {i i' : Item} (h : Evolves i i') : i.files <+: i'.files := by
  cases h with
  | stays => exact List.prefix_refl _
  | filed file _ => exact List.prefix_append _ _
  | started => exact List.prefix_refl _
  | settled => exact List.prefix_refl _

theorem Lasts.hasFile (h : s.Lasts s') {file : String} (hfile : s.hasFile file = true) :
    s'.hasFile file = true := by
  obtain ⟨i, hi, f, hf, hid⟩ := hasFile_iff.mp hfile
  obtain ⟨i', hi', hevolves⟩ := h.items i hi
  exact hasFile_iff.mpr ⟨i', hi', f, hevolves.files.subset hf, hid⟩

/-- Every result is for a file that is there. -/
theorem Reached.hasFile (h : s.Reached) : ∀ r ∈ s.results, s.hasFile r.fileId = true := by
  induction h with
  | empty => exact fun r hr => absurd hr List.not_mem_nil
  | @call s c hs ih =>
    unfold Call.after
    split
    · rename_i s' hok
      have hlasts := Call.lasts hs.keyed hok
      intro r hr
      rcases Call.results hok with hsame | ⟨result, hfile, hadded⟩
      · exact hlasts.hasFile (ih r (hsame ▸ hr))
      · rw [hadded, List.mem_append, List.mem_singleton] at hr
        rcases hr with hold | rfl
        · exact hlasts.hasFile (ih r hold)
        · exact hlasts.hasFile hfile
    · exact ih

/-- There is one result for a file at most. -/
theorem Reached.results_nodup (h : s.Reached) : (s.results.map (·.fileId)).Nodup := by
  induction h with
  | empty => exact List.nodup_nil
  | call c hs ih => exact (Call.after_lasts hs.keyed c).results_nodup ih

end Collate.Store
