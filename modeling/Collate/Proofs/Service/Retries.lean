import Collate.Proofs.Service.Served
import Collate.Proofs.Store.Chains

/-!
Retries of a service that is called in any way. No call makes a chain of tries
anything but a line of failed items with one last try at its end, and the number
of items of an order counts each line once.
-/

namespace Collate.Service

open Procedure

variable {policy : Policy} {d : Desk}

theorem links_spansAll : SpansAll Store.Links where
  refl _ h := h
  trans h h' hlinked := h' (h hlinked)
  createOrder hok := by
    obtain ⟨-, rfl⟩ := Store.createOrder_ok hok
    exact Store.links_of_items rfl
  addItem hok := Store.links_addItem hok rfl
  attachFile := Store.links_attachFile
  setMappingKeys hok := by
    obtain ⟨-, rfl⟩ := Store.setMappingKeys_ok hok
    exact Store.links_of_items rfl
  setMappingFile hok := by
    obtain rfl := Store.setMappingFile_ok hok
    exact Store.links_of_items rfl
  noteError hok := by
    obtain rfl := Store.noteError_ok hok
    exact Store.links_of_items rfl
  setReportPaths hok := by
    obtain rfl := Store.setReportPaths_ok hok
    exact Store.links_of_items rfl
  submit hok := by
    obtain ⟨-, -, -, -, -, rfl⟩ := Store.submit_ok hok
    exact Store.links_of_items rfl
  moveOrder hok := by
    obtain ⟨-, ⟨-, -, -, -, rfl⟩ | ⟨-, rfl⟩⟩ := Store.moveOrder_ok hok
    · exact Store.links_of_items rfl
    · exact Store.links_of_items rfl
  rollUp hok := by
    obtain ⟨-, -, ⟨-, -, -, -, rfl⟩ | ⟨-, rfl⟩⟩ := Store.rollUp_ok hok
    · exact Store.links_of_items rfl
    · exact Store.links_of_items rfl
  saveMerged hok := by
    obtain ⟨-, rfl⟩ := Store.saveMerged_ok hok
    exact Store.links_of_items rfl
  retry := Store.links_retry
  begin := Store.links_begin
  putResult hok := Store.links_of_items (Store.putResult_ok hok).2.1
  resolve := Store.links_resolve

theorem Served.linked {may : Policy → Call → List String → Prop} {issued : List String}
    (h : Served may d issued) : d.store.Linked := by
  induction h with
  | start hempty =>
    rw [hempty]
    exact Store.empty_linked
  | call policy c _ _ ih => exact c.keeps_all links_spansAll policy ih
  | meanwhile _ hsame _ ih => exact ih.of_items hsame.items

/-- Retrying does not change how many items an order has. -/
theorem retryItem_total (policy : Policy) (id : String) {o : Order}
    (ho : d.store.order? o.id = some o) : ∃ o',
      ((Call.retryItem id).after policy d).store.order? o.id = some o' ∧ o'.total = o.total := by
  rw [Call.after, Call.procedure, run_bind_pure]
  cases hrun : (retryItem policy id).run d with
  | mk r d' =>
    obtain ⟨hsame, -⟩ | ⟨_, _, _, _, _, -, -, hok, -⟩ := retryItem_cases hrun
    · exact ⟨o, hsame ▸ ho, rfl⟩
    · exact Store.retry_total hok ho

/-- Chains of tries: an item that tries another one again belongs to the same
order, is about the same document and begins with copies of the files, which have
ids of their own; the other one has failed and is tried again only once. Trying
again never comes back to an item, all items of a chain but the last have failed,
and the total of an order counts its chains, which a retry leaves as it was. -/
theorem Served.retries_linked {may : Policy → Call → List String → Prop} {issued : List String}
    (h : Served may d issued) :
    (∀ i ∈ d.store.items, ∀ tried, i.retryOf = some tried →
      ∃ failed, d.store.item? tried = some failed ∧ failed.status = .failed ∧
        failed.orderId = i.orderId ∧ failed.company = i.company ∧
        failed.documentType = i.documentType ∧ failed.name = i.name ∧
        failed.files.map FileRef.contents <+: i.files.map FileRef.contents ∧
        (i.files.map (·.id)).Nodup ∧ ∀ file ∈ i.files, file.itemId = i.id ∧
          ∀ j ∈ d.store.items, j ≠ i → ∀ other ∈ j.files, other.id ≠ file.id) ∧
    (∀ i ∈ d.store.items, ∀ j ∈ d.store.items, i.retryOf.isSome = true →
      i.retryOf = j.retryOf → i = j) ∧
    (∀ i, ¬ Relation.TransGen d.store.Retries i i) ∧
    (∀ chain : List Item, chain.IsChain (fun failed next => d.store.Retries next failed) →
      ∀ i ∈ chain.dropLast, i.status = .failed) ∧
    ∀ o ∈ d.store.orders, (o.total = d.store.countOf o.id fun i => i.retryOf.isNone) ∧
      ∀ policy id, ∃ o', ((Call.retryItem id).after policy d).store.order? o.id = some o' ∧
        o'.total = o.total := by
  have htidy := h.tidy
  have hlinked := h.linked
  refine ⟨?_, ?_, hlinked.acyclic, fun _ => hlinked.failed_of_chain, ?_⟩
  · intro i hi tried hretry
    obtain ⟨failed, hfailed, rfl, hstatus, htakes⟩ := hlinked.tries i hi tried hretry
    refine ⟨failed, htidy.item?_of_mem hfailed, hstatus, htakes.order.symm, htakes.company.symm,
      htakes.documentType.symm, htakes.name.symm, htakes.files, htidy.distinct i hi, ?_⟩
    intro file hfile
    refine ⟨htidy.owned i hi file hfile, fun j hj hne other hother heq => hne ?_⟩
    exact htidy.item_unique hj hi (htidy.apart j hj i hi other hother file hfile heq)
  · intro i hi j hj hsome heq
    exact htidy.item_unique hi hj (hlinked.once i hi j hj hsome heq)
  · intro o ho
    refine ⟨?_, fun policy id => retryItem_total policy id (htidy.order?_of_mem ho)⟩
    rw [(htidy.exact o ho).total, hlinked.countOf_first]

/-! An item without a primary file, which fails each time, next to one that is
left to wait. -/

private def tryingPolicy : Policy := ⟨.standard, .tolerant, ⟨"blobs"⟩, .local, false⟩

private def tryingCalls : List Call :=
  [.createOrder none, .addItem (Desk.idOf 0) "acme" "invoice" "scan",
    .attachFile (FileRef.create "a" (Desk.idOf 1) .attachment "rates.csv" 5 "a-blob"),
    .addItem (Desk.idOf 0) "acme" "invoice" "other", .submit (Desk.idOf 0),
    .processItem (Desk.idOf 1), .retryItem (Desk.idOf 1),
    .processItem (Desk.idOf 3), .retryItem (Desk.idOf 3), .retryItem (Desk.idOf 1),
    .attachFile (FileRef.create "b" (Desk.idOf 5) .primary "scan.json" 2 "b-blob")]

private def triedDesk : Desk :=
  tryingCalls.foldl (fun d c => c.after tryingPolicy d) Desk.empty

/-- The second try is tried again in turn, a third retry is refused, and a file is
attached to the last try. The order has the two items it had, and no chain of tries
comes back to where it began. -/
theorem Served.retries_linked_twice : ∃ issued, Served (fun _ _ _ => True) triedDesk issued ∧
    triedDesk.store.items.map (·.status) = [.failed, .pending, .failed, .pending] ∧
    triedDesk.store.items.map (·.retryOf) =
      [none, none, some (Desk.idOf 1), some (Desk.idOf 3)] ∧
    triedDesk.store.items.map (·.files.length) = [1, 0, 1, 2] ∧
    triedDesk.store.orders.map (·.total) = [2] ∧
    ∀ i, ¬ Relation.TransGen triedDesk.store.Retries i i := by
  have hstart : Served (fun _ _ _ => True) Desk.empty [] := .start rfl
  obtain ⟨issued, h⟩ := hstart.calls tryingPolicy tryingCalls fun _ _ _ => trivial
  obtain ⟨-, -, hacyclic, -, -⟩ := Served.retries_linked h
  exact ⟨issued, h, by decide +kernel, by decide +kernel, by decide +kernel, by decide +kernel,
    hacyclic⟩

end Collate.Service
