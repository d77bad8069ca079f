import Collate.Proofs.Service.Actions

/-!
Calls that take in orders, items, files, keys and mapping files, look things up
and report. They issue a few operations, so that a relation which `Covers` these
operations covers the calls. Examining an item does not even touch orders and
items.
-/

namespace Collate.Service

open Procedure (Gathers Yields goes_gathers sameRecords_gathers run_bind_ok run_look)

theorem goes_of_sameRecords (s s' : Store) (h : s.SameRecords s') : s.Goes s' :=
  Store.goes_of_records h.orders h.items fun _ hm => by rw [h.merged]; exact hm

/-- A relation between the stores before and after any operation of taking in
and reporting. -/
structure Covers (R : Store → Store → Prop) : Prop extends Gathers R where
  createOrder : ∀ {s s' id name},
    Store.createOrder (Order.create id name) s = .ok ((), s') → R s s'
  addItem : ∀ {s s' id order company documentType name now},
    Store.addItem (Item.create id order company documentType name now) s = .ok ((), s') → R s s'
  attachFile : ∀ {s s' file}, Store.attachFile file s = .ok ((), s') → R s s'
  setMappingKeys : ∀ {s s' id keys}, Store.setMappingKeys id keys s = .ok ((), s') → R s s'
  setMappingFile : ∀ {s s' id reference},
    Store.setMappingFile id reference s = .ok ((), s') → R s s'
  noteError : ∀ {s s' id error}, Store.noteError id error s = .ok ((), s') → R s s'
  setReportPaths : ∀ {s s' id paths}, Store.setReportPaths id paths s = .ok ((), s') → R s s'

theorem goes_covers : Covers Store.Goes := by
  have hupdate : ∀ {s : Store} {id : String} {change : Order → Order},
      (∀ o, (change o).id = o.id ∧ (change o).status = o.status ∧ (change o).total = o.total ∧
        (change o).completed = o.completed ∧ (change o).failed = o.failed) →
      s.Goes (s.updateOrder id change) := by
    intro s id change hsame
    exact Store.goes_updateOrder (fun o => (hsame o).1) (fun o => (hsame o).2.1) fun o =>
      (hsame o).2.2
  refine ⟨goes_gathers, Store.goes_createOrder, fun hok => Store.goes_addItem hok rfl,
    Store.goes_attachFile, ?_, ?_, ?_, ?_⟩
  · intro s s' id keys hok
    rw [(Store.setMappingKeys_ok hok).2]
    exact hupdate fun _ => ⟨rfl, rfl, rfl, rfl, rfl⟩
  · intro s s' id reference hok
    rw [Store.setMappingFile_ok hok]
    exact hupdate fun _ => ⟨rfl, rfl, rfl, rfl, rfl⟩
  · intro s s' id error hok
    rw [Store.noteError_ok hok]
    exact hupdate fun _ => ⟨rfl, rfl, rfl, rfl, rfl⟩
  · intro s s' id paths hok
    rw [Store.setReportPaths_ok hok]
    exact hupdate fun _ => ⟨rfl, rfl, rfl, rfl, rfl⟩

/-- Whether a call takes orders on: it submits, processes, rolls up, retries or merges. -/
def Call.TakesOn : Call → Prop
  | .submit _ | .processItem _ | .rollup _ | .retryItem _ | .runMerge _ => True
  | _ => False

theorem Covers.issued {R : Store → Store → Prop} (hR : Covers R) {c : Call} (hc : ¬ c.TakesOn)
    {k : Store.Call} {s s' : Store} (hmay : c.Issues k) (hok : k.perform s = .ok s') : R s s' := by
  cases hmay with
  | createOrder =>
    obtain ⟨_, hok⟩ := Store.map_snd_eq_ok.mp hok
    exact hR.createOrder hok
  | addItem =>
    obtain ⟨_, hok⟩ := Store.map_snd_eq_ok.mp hok
    exact hR.addItem hok
  | uploadFile | attachFile =>
    obtain ⟨_, hok⟩ := Store.map_snd_eq_ok.mp hok
    exact hR.attachFile hok
  | setMappingKeys =>
    obtain ⟨_, hok⟩ := Store.map_snd_eq_ok.mp hok
    exact hR.setMappingKeys hok
  | uploadMappingFile =>
    obtain ⟨_, hok⟩ := Store.map_snd_eq_ok.mp hok
    exact hR.setMappingFile hok
  | exportReport id paths =>
    obtain ⟨_, hok⟩ := (Store.map_snd_eq_ok (x := Store.setReportPaths id paths s)).mp hok
    exact hR.setReportPaths hok
  | _ => exact absurd trivial hc

/-- Every call that does not take orders on. -/
theorem Covers.call {R : Store → Store → Prop} (hR : Covers R) (policy : Policy) {c : Call}
    (hc : ¬ c.TakesOn) (d : Desk) : R d.store (c.after policy d).store :=
  Call.keeps_of_issues hR.toGathers (hR.issued hc)

/-! Examining items. -/

theorem extractFile_yields (policy : Policy) (item : Item) (file : FileRef) :
    (extractFile policy item file).Yields := by
  unfold extractFile
  refine Yields.bind (Yields.perform _) fun found => ?_
  split
  · exact Yields.pure _
  · refine Yields.bind (Yields.perform _) fun extracted => ?_
    split
    · exact Yields.pure _
    · exact Yields.pure _

theorem extractFiles_yields (policy : Policy) (item : Item) (files : List FileRef) :
    (extractFiles policy item files).Yields := by
  induction files with
  | nil => exact Yields.pure _
  | cons file rest ih =>
    unfold extractFiles
    refine Yields.bind (extractFile_yields policy item file) fun outcome => ?_
    refine Yields.bind (Yields.attempt _) fun put => ?_
    split
    · exact Yields.pure _
    · split
      · exact ih
      · exact Yields.pure _

theorem examine_yields (policy : Policy) (item : Item) (keys : Option (List String)) :
    (examine policy item keys).Yields := by
  unfold examine
  split
  · exact Yields.pure _
  · refine Yields.bind (extractFiles_yields policy item item.files) fun extracted => ?_
    split
    · unfold checkResults
      refine Yields.bind (Yields.attempt _) fun loaded => ?_
      split
      · exact Yields.pure _
      · exact Yields.pure _
    · exact Yields.pure _

/-- Examining only records results: it leaves orders and items alone. -/
theorem examine_keeps (policy : Policy) (item : Item) (keys : Option (List String)) :
    (examine policy item keys).Keeps Store.SameRecords := by
  have hputs : (examine policy item keys).Performs (fun k => ∃ result, k = .putResult result)
      False := examine_performs policy item keys fun _ _ _ => ⟨_, rfl⟩
  refine hputs.keeps sameRecords_gathers ?_
  rintro _ s s' ⟨result, rfl⟩ hok
  obtain ⟨put, hok⟩ := Store.map_snd_eq_ok.mp hok
  obtain ⟨horders, hitems, hmerged⟩ := Store.putResult_ok hok
  exact ⟨horders, hitems, hmerged⟩

/-- Examining an item never fails. -/
theorem examine_gives (policy : Policy) (item : Item) (keys : Option (List String)) (d : Desk) :
    ∃ outcome d', (examine policy item keys).run d = (.ok outcome, d') ∧
      d.store.SameRecords d'.store := by
  obtain ⟨outcome, d', hrun⟩ := (examine_yields policy item keys).run d
  have hsame := examine_keeps policy item keys d
  rw [hrun] at hsame
  exact ⟨outcome, d', hrun, hsame⟩

/-! Looking for join plans. -/

theorem boundTemplate?_run (binding : Option Binding) (d : Desk) : (boundTemplate? binding).run d =
    (.ok (binding.bind fun b => d.store.template? b.templateId), d) := by
  cases binding with
  | none => rfl
  | some b => rfl

/-- The plan is found in several looks, which give what one look at the store does. -/
theorem plan?_run (company documentType : String) (itemType : ItemType) (d : Desk) :
    (plan? company documentType itemType).run d =
      (.ok (d.store.plan? company documentType itemType), d) := by
  unfold plan? Store.plan?
  rw [run_bind_ok (run_look _ _), run_bind_ok (boundTemplate?_run _ _)]
  cases d.store.binding? company documentType itemType with
  | none => rfl
  | some b =>
    cases htemplate : d.store.template? b.templateId with
    | none =>
      simp only [Option.bind_some, htemplate, Option.any_none, Bool.false_eq_true, if_false,
        resolvePlan]
      rfl
    | some t =>
      by_cases htype : t.itemType = itemType
      · simp only [Option.bind_some, htemplate, Option.any_some, htype, beq_self_eq_true, if_true,
          resolvePlan]
        rfl
      · simp only [Option.bind_some, htemplate, Option.any_some, beq_iff_eq, htype, if_false,
          resolvePlan]
        rfl

theorem planOf?_run (item : Item) (d : Desk) : (planOf? item).run d =
    (.ok (d.store.plan? item.company item.documentType item.itemType), d) :=
  plan?_run _ _ _ d

theorem anyPlan_run (items : List Item) (d : Desk) : (anyPlan items).run d =
    (.ok (items.any fun i => (d.store.plan? i.company i.documentType i.itemType).isSome), d) := by
  induction items with
  | nil => rfl
  | cons item rest ih =>
    unfold anyPlan
    rw [run_bind_ok (planOf?_run item d), List.any_cons]
    cases d.store.plan? item.company item.documentType item.itemType with
    | none => exact ih
    | some plan => rfl

end Collate.Service
