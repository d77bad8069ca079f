import Collate.Proofs.Blobs
import Collate.Proofs.Service.Operations
import Collate.Proofs.Service.Processing
import Collate.Proofs.Store.Reached

/-!
Calls that are refused. A call checks before it writes, and what it writes first
it can always go on from: content is stored as a blob only when nothing that
follows can be refused. So a call that ends in a fault leaves the store and every
blob as they were. Merging is the exception, which leaves a note.
-/

namespace Collate

/-- The store and the files on disk are as they were. A directory may be new. -/
structure Desk.Untouched (d d' : Desk) : Prop where
  store : d'.store = d.store
  files : d'.disk.files = d.disk.files

theorem Desk.Untouched.refl (d : Desk) : d.Untouched d := ⟨rfl, rfl⟩

theorem Desk.Untouched.trans {d d' d'' : Desk} (h : d.Untouched d') (h' : d'.Untouched d'') :
    d.Untouched d'' :=
  ⟨h'.store.trans h.store, h'.files.trans h.files⟩

/-- No file has an id that is still to be given out. -/
def Desk.Fresh (d : Desk) : Prop := ∀ n, d.ids ≤ n → d.store.hasFile (Desk.idOf n) = false

/-! What an operation asks for before it takes place. -/

namespace Store

variable {s : Store}

theorem attachFile_accepted {i : Item} {o : Order} {file : FileRef}
    (hi : s.item? file.itemId = some i) (ho : s.order? i.orderId = some o)
    (hstatus : o.status ∈ [.draft, .processing]) (hopen : i.status.isFinal = false)
    (hfresh : s.hasFile file.id = false) : ∃ s', attachFile file s = .ok ((), s') := by
  have hfile : i.withFile file =
      .ok { i with files := i.files ++ [{ file with itemId := i.id }] } :=
    if_neg (by simp [hopen])
  have hnew : s.freshFiles [file] = .ok () := by
    simp [freshFiles, hfresh, repeated?]
  refine ⟨s.updateItem i.id fun i => { i with files := i.files ++ [file] }, ?_⟩
  simp only [attachFile, Except.bind_eq_ok, liftFault_eq_ok, item_eq_ok, order_eq_ok,
    Order.require_eq_ok]
  exact ⟨i, hi, o, ho, (), hstatus, _, hfile, (), hnew, rfl⟩

theorem setMappingFile_accepted {id : String} {o : Order} (ho : s.order? id = some o)
    (hdraft : o.status ∈ [.draft]) (reference : String) :
    ∃ s', setMappingFile id reference s = .ok ((), s') := by
  refine ⟨s.updateOrder id fun o => { o with mappingFile := some reference }, ?_⟩
  simp only [setMappingFile, Except.bind_eq_ok, liftFault_eq_ok, order_eq_ok, Order.require_eq_ok]
  exact ⟨o, ho, (), hdraft, trivial⟩

/-- An item in processing is resolved by a copy that is final, if the order that
the copy names is there. -/
theorem resolve_accepted {i held : Item} {o : Order} (hfinal : held.status.isFinal = true)
    (hi : s.item? held.id = some i) (hprocessing : i.status = .processing)
    (ho : s.order? held.orderId = some o) : ∃ after s', resolve held s = .ok (after, s') := by
  let settled : Store := (s.updateItem held.id (settle held)).updateOrder held.orderId
    (countResolution held.status)
  have hcounted : settled.order? held.orderId = some (countResolution held.status o) := by
    rw [order?_updateOrder, if_pos rfl]
    · exact congrArg (Option.map _) ho
    · exact fun o => (countResolution_counters _ o).1
  refine ⟨countResolution held.status o, settled, ?_⟩
  simp only [resolve, hfinal, if_true, hi, hprocessing, Except.bind_eq_ok, liftFault_eq_ok,
    order_eq_ok]
  exact ⟨_, hcounted, rfl⟩

end Store

namespace Procedure

variable {α β : Type} {p : Procedure α} {f : α → Procedure β} {d : Desk}

/-- A procedure that only looks: it leaves store and files alone, and ids are
taken at most. -/
abbrev Looks (p : Procedure α) : Prop := p.Acts Desk.Untouched

/-- A run that ends in a fault leaves store and files alone. -/
def SparesOnFault (p : Procedure α) (d : Desk) : Prop :=
  ∀ fault, (p.run d).1 = .error fault → d.Untouched (p.run d).2

def Succeeds (p : Procedure α) (d : Desk) : Prop := ∃ a d', p.run d = (.ok a, d')

theorem Looks.untouched (h : p.Looks) (d : Desk) : d.Untouched (p.run d).2 :=
  Acts.run h .refl (fun h h' => h.trans h') (fun _ _ h => h) d

theorem Looks.of_run {r : Except ServiceFault α} {d' : Desk} (h : p.Looks)
    (hrun : p.run d = (r, d')) : d.Untouched d' := by
  have hsame := h.untouched d
  rw [hrun] at hsame
  exact hsame

theorem Looks.perform {action : Desk → α × Desk} (h : ∀ d : Desk, d.Untouched (action d).2) :
    (Procedure.perform action).Looks := fun d => ⟨h d, trivial⟩

theorem Looks.need (result : Except ServiceFault α) : (Procedure.need result).Looks := trivial

theorem Looks.look (query : Store → α) : (Procedure.look query).Looks := Looks.perform .refl

theorem Looks.order (id : String) : (Procedure.order id).Looks :=
  Acts.bind (Looks.look _) fun _ => Looks.need _

theorem Looks.item (id : String) : (Procedure.item id).Looks :=
  Acts.bind (Looks.look _) fun _ => Looks.need _

theorem Looks.spares (h : p.Looks) : p.SparesOnFault d := fun _ _ => h.untouched d

theorem Succeeds.spares (h : p.Succeeds d) : p.SparesOnFault d := by
  obtain ⟨a, d', hrun⟩ := h
  intro fault hfault
  rw [hrun] at hfault
  cases hfault

/-- A single operation on the store takes place or not. -/
theorem SparesOnFault.store (op : StoreOp α) (d : Desk) :
    (Procedure.store op).SparesOnFault d := by
  intro fault hfault
  cases hrun : (Procedure.store op).run d with
  | mk result d' =>
    rw [hrun] at hfault
    obtain rfl : result = .error fault := hfault
    rw [store_error hrun]
    exact .refl d

theorem SparesOnFault.writeBlob (policy : Policy) (directory filename : String)
    (content : Octets) (d : Desk) :
    (Procedure.writeBlob policy directory filename content).SparesOnFault d := by
  intro fault hfault
  cases hwrite : policy.blobs.write d.disk directory filename content with
  | mk written disk =>
    have hrun : (Procedure.writeBlob policy directory filename content).run d =
        (written.mapError .blob, { d with disk := disk }) := by
      simp only [Procedure.writeBlob, run_bind, Procedure.perform, run, hwrite, run_need]
    rw [hrun] at hfault ⊢
    obtain ⟨cause, rfl, -⟩ := Except.mapError_eq_error.mp hfault
    exact ⟨rfl, Blobs.write_error hwrite⟩

/-- Only the disk is different once a blob was written, as writing the blob leaves it. -/
theorem writeBlob_ok {policy : Policy} {directory filename reference : String} {content : Octets}
    {d' : Desk}
    (h : (Procedure.writeBlob policy directory filename content).run d = (.ok reference, d')) :
    ∃ disk, policy.blobs.write d.disk directory filename content = (.ok reference, disk) ∧
      d' = { d with disk := disk } := by
  simp only [Procedure.writeBlob, run_bind, Procedure.perform, run, run_need, Prod.mk.injEq,
    Except.mapError_eq_ok] at h
  exact ⟨_, Prod.ext h.1 rfl, h.2.symm⟩

/-- First a look, then something that may be refused. -/
theorem SparesOnFault.check (hp : p.Looks)
    (hf : ∀ a e, p.run d = (.ok a, e) → (f a).SparesOnFault e) : (p >>= f).SparesOnFault d := by
  intro fault hfault
  rw [run_bind] at hfault ⊢
  cases hrun : p.run d with
  | mk result e =>
    have hlook := hp.of_run hrun
    rw [hrun] at hfault
    cases result with
    | ok a => exact hlook.trans (hf a e hrun fault hfault)
    | error cause => exact hlook

/-- First something that may be refused, then something that is not. -/
theorem SparesOnFault.commit (hp : p.SparesOnFault d)
    (hf : ∀ a e, p.run d = (.ok a, e) → (f a).Succeeds e) : (p >>= f).SparesOnFault d := by
  intro fault hfault
  rw [run_bind] at hfault ⊢
  cases hrun : p.run d with
  | mk result e =>
    rw [hrun] at hfault
    cases result with
    | ok a =>
      obtain ⟨b, d', hlast⟩ := hf a e hrun
      simp only [hlast] at hfault
      cases hfault
    | error cause =>
      have hspared := hp cause
      rw [hrun] at hspared
      exact hspared rfl

/-- What is made of the value does not matter. -/
theorem SparesOnFault.last (hp : p.SparesOnFault d) (g : α → β) :
    (p >>= fun a => pure (g a)).SparesOnFault d :=
  hp.commit fun a e _ => ⟨g a, e, rfl⟩

/-- A check that passed tells what it found. -/
theorem need_ok {result : Except OrderFault α} {a : α} {d' : Desk}
    (h : (need (result.mapError ServiceFault.order)).run d = (.ok a, d')) :
    result = .ok a ∧ d = d' := by
  rw [run_need, Prod.mk.injEq, Except.mapError_eq_ok] at h
  exact h

theorem order_ok {id : String} {o : Order} {d' : Desk} (h : (order id).run d = (.ok o, d')) :
    d.store.order? id = some o ∧ d = d' := by
  rw [run_order, Prod.mk.injEq, Except.mapError_eq_ok, Store.order_eq_ok] at h
  exact h

end Procedure

namespace Service

open Procedure

variable {policy : Policy} {d : Desk}

/-! Calls of a single operation. -/

theorem createOrder_spares (name : Option String) : (createOrder name).SparesOnFault d := by
  unfold createOrder
  refine SparesOnFault.check (Looks.perform fun _ => ⟨rfl, rfl⟩) fun idAt e _ => ?_
  exact (SparesOnFault.store _ e).last fun _ => _

theorem addItem_spares (order company documentType name : String) :
    (addItem order company documentType name).SparesOnFault d := by
  unfold addItem
  refine SparesOnFault.check (Looks.perform fun _ => ⟨rfl, rfl⟩) fun idAt e _ => ?_
  refine SparesOnFault.check (Looks.perform .refl) fun now e' _ => ?_
  exact (SparesOnFault.store _ e').last fun _ => _

theorem setMappingKeys_spares (order : String) (keys : List String) :
    (setMappingKeys order keys).SparesOnFault d := by
  unfold setMappingKeys
  refine SparesOnFault.check (Looks.need _) fun keys e _ => ?_
  exact (SparesOnFault.store _ e).last fun _ => keys

/-- An order that was sent off is there to be announced. -/
theorem submit_spares (order : String) : (submit policy order).SparesOnFault d := by
  unfold submit
  refine SparesOnFault.commit (SparesOnFault.store _ d) fun pending e hstore => ?_
  obtain ⟨o, ho, -, -, -, hs⟩ := Store.submit_ok (store_ok hstore)
  have hsent : e.store.order? order = some { o with status := .processing } := by
    rw [hs, Store.order?_updateOrder, if_pos rfl, ho]
    · rfl
    · exact fun _ => rfl
  obtain ⟨events, hannounce⟩ := run_announceOrder policy .submitted "Order submitted" hsent
  exact ⟨pending, _, run_bind_ok hannounce⟩

theorem rollup_spares (id : String) : (rollup policy id).SparesOnFault d := by
  cases ho : d.store.order? id with
  | none =>
    intro fault _
    rw [rollup_missing ho]
    exact .refl d
  | some o =>
    obtain ⟨-, rfl⟩ := Store.order?_mem ho
    obtain ⟨target, events, hrun⟩ := rollup_store policy ho
    exact Succeeds.spares ⟨target, _, hrun⟩

theorem retryItem_spares (id : String) : (retryItem policy id).SparesOnFault d := by
  unfold retryItem
  refine SparesOnFault.check (Looks.item id) fun failed e _ => ?_
  refine SparesOnFault.check (Looks.perform fun _ => ⟨rfl, rfl⟩) fun idAt e _ => ?_
  refine SparesOnFault.check (Looks.perform .refl) fun now e _ => ?_
  refine SparesOnFault.check (Looks.need _) fun next e _ => ?_
  refine SparesOnFault.commit (SparesOnFault.store _ e) fun order e' _ => ?_
  obtain ⟨events, hannounce⟩ := run_announce policy
    (ProgressEvent.ofItem order next.id .itemRetried "Item queued for retry") e'
  exact ⟨next, _, run_bind_ok hannounce⟩

/-! Calls that store a blob. -/

/-- Whoever may attach a file may upload it: the checks are made again when the
file is attached, on the same store. -/
theorem uploadFile_spares (hfresh : d.Fresh) (item : String) (role : FileRole)
    (filename : String) (content : Octets) :
    (uploadFile policy item role filename content).SparesOnFault d := by
  unfold uploadFile
  refine SparesOnFault.check (Looks.item item) fun i e hitem => ?_
  obtain ⟨hi, rfl⟩ := item_ok hitem
  obtain ⟨-, rfl⟩ := Store.item?_mem hi
  refine SparesOnFault.check (Looks.order _) fun o e' horder => ?_
  obtain ⟨ho, rfl⟩ := order_ok horder
  refine SparesOnFault.check (Looks.need _) fun u e' hneed => ?_
  obtain ⟨hstatus, rfl⟩ := need_ok hneed
  refine SparesOnFault.check (Looks.need _) fun u e' hopen => ?_
  rw [run_need, Prod.mk.injEq] at hopen
  obtain ⟨hopen, rfl⟩ := hopen
  refine SparesOnFault.commit (SparesOnFault.writeBlob policy _ filename content _)
    fun reference e' hwrite => ?_
  obtain ⟨disk, -, rfl⟩ := writeBlob_ok hwrite
  have hstays : i.status.isFinal = false := by
    unfold requireOpen at hopen
    split at hopen
    · cases hopen
    · rename_i hnot
      simpa using hnot
  let file := @FileRef.create policy.types (Desk.idOf e.ids) i.id role filename content.length
    reference
  obtain ⟨s', hattach⟩ : ∃ s', Store.attachFile file e.store = .ok ((), s') :=
    Store.attachFile_accepted hi ho (Order.require_eq_ok.mp hstatus) hstays
      (hfresh e.ids (Nat.le_refl _))
  have hstore : (attachFile file).run { e with disk := disk, ids := e.ids + 1 } =
      (.ok (), { e with store := s', disk := disk, ids := e.ids + 1 }) := run_store_ok hattach
  refine ⟨file, { e with store := s', disk := disk, ids := e.ids + 1 }, ?_⟩
  have hfile : (@newFile policy.types i.id role filename content.length reference).run
      { e with disk := disk } = (.ok file, { e with disk := disk, ids := e.ids + 1 }) := rfl
  rw [run_bind_ok hfile, run_bind_ok hstore]
  rfl

theorem uploadMappingFile_spares (order filename : String) (content : Octets) :
    (uploadMappingFile policy order filename content).SparesOnFault d := by
  unfold uploadMappingFile
  refine SparesOnFault.check (Looks.order _) fun o e horder => ?_
  obtain ⟨ho, rfl⟩ := order_ok horder
  refine SparesOnFault.check (Looks.need _) fun u e hneed => ?_
  obtain ⟨hdraft, rfl⟩ := need_ok hneed
  refine SparesOnFault.check (Looks.need _) fun headers e hheaders => ?_
  rw [run_need, Prod.mk.injEq] at hheaders
  obtain ⟨-, rfl⟩ := hheaders
  refine SparesOnFault.commit (SparesOnFault.writeBlob policy _ filename content _)
    fun reference e hwrite => ?_
  obtain ⟨disk, -, rfl⟩ := writeBlob_ok hwrite
  obtain ⟨s', hset⟩ :=
    Store.setMappingFile_accepted ho (Order.require_eq_ok.mp hdraft) reference
  exact ⟨headers, _, run_bind_ok (run_store_ok hset)⟩

theorem mappingFileHeaders_looks (order : String) : (mappingFileHeaders policy order).Looks := by
  unfold mappingFileHeaders
  refine Acts.bind (Looks.order order) fun o => ?_
  split
  · trivial
  · refine Acts.bind (Looks.perform .refl) fun found => ?_
    refine Acts.bind (Looks.need _) fun content => ?_
    extract_lets headers
    clear_value headers
    exact Acts.bind (Looks.need _) fun _ => trivial

theorem mergedTable_looks (order : String) : (mergedTable order).Looks := by
  refine Acts.bind (Looks.look _) fun found => ?_
  split
  · trivial
  · trivial

theorem exportReport_spares (order : String) : (exportReport policy order).SparesOnFault d := by
  unfold exportReport
  refine SparesOnFault.check (Looks.order order) fun o e _ => ?_
  refine SparesOnFault.check (mergedTable_looks order) fun merged e _ => ?_
  refine SparesOnFault.commit (SparesOnFault.writeBlob policy _ _ _ _) fun reference e' _ => ?_
  let named : Desk := { e' with
    store := e'.store.updateOrder order fun p =>
      { p with reportPaths := o.reportPaths ++ [reference] } }
  have hset : (Procedure.store (Store.setReportPaths order (o.reportPaths ++ [reference]))).run e' =
      (.ok (), named) := rfl
  obtain ⟨events, hannounce⟩ := run_announce policy
    (ProgressEvent.ofOrder o .reportExported reference) named
  exact ⟨reference, _, (run_bind_ok hset).trans (run_bind_ok hannounce)⟩

/-! Processing. -/

/-- An item that was begun is resolved, whatever becomes of its files. -/
theorem processItem_succeeds (policy : Policy) (h : d.store.Keyed) {i : Item}
    (hfound : d.store.item? i.id = some i) (hpending : i.status = .pending) :
    (processItem policy i.id).Succeeds d := by
  obtain ⟨hi, -⟩ := Store.item?_mem hfound
  obtain ⟨o, ho⟩ := h.order?_placed hi
  let started : Item := { i with status := .processing, startedAt := some d.clock }
  let begun : Desk := { d with store := d.store.begun i.id d.clock }
  have hbegin : (Procedure.store (Store.begin i.id d.clock)).run d = (.ok (some started), begun) :=
    run_store_ok (Store.begin_pending d.clock hfound hpending)
  have horder : (Procedure.order started.orderId).run begun = (.ok o, begun) :=
    run_order_some (d := begun) ho
  obtain ⟨events, hannounce⟩ := run_announce policy
    (ProgressEvent.ofItem o i.id .itemStarted "Extracting item") begun
  obtain ⟨outcome, e₂, hexamine, hsame⟩ := examine_gives policy started o.mappingKeys
    { begun with events := events }
  have hprocessing : started.status = .processing := rfl
  obtain ⟨resolved, hresolved, hid, hplace, hfinal⟩ :=
    exists_resolved hprocessing outcome e₂.clock
  -- the item is still in processing, and its order is still there
  have hbegun : begun.store.item? i.id = some started := Store.begun_item? d.clock hfound
  have hthere : e₂.store.item? resolved.id = some started := by
    rw [hid, Store.item?, hsame.items]
    exact hbegun
  have hordered : e₂.store.order? resolved.orderId = some o := by
    rw [hplace, Store.order?, hsame.orders]
    exact ho
  obtain ⟨after, s, hresolve⟩ := Store.resolve_accepted hfinal hthere hprocessing hordered
  obtain ⟨-, -, -, hafter⟩ := Store.resolve_ok hresolve
  rw [← (Store.order?_mem hafter).2] at hafter
  obtain ⟨events, hresolution⟩ := resolution_store policy i.id hresolved hresolve hafter
  refine ⟨some resolved, { e₂ with store := s.rolledUp after.id, events := events }, ?_⟩
  rw [processItem, run_bind_ok (run_now d), run_bind_ok hbegin]
  dsimp only
  rw [run_bind_ok horder, run_bind_ok hannounce, run_bind_ok hexamine, run_bind_ok (run_now _)]
  exact hresolution

theorem processItem_spares (h : d.store.Keyed) (id : String) :
    (processItem policy id).SparesOnFault d := by
  cases hfound : d.store.item? id with
  | none =>
    intro fault _
    rw [processItem_missing hfound]
    exact .refl d
  | some i =>
    obtain ⟨-, rfl⟩ := Store.item?_mem hfound
    by_cases hpending : i.status = .pending
    · exact (processItem_succeeds policy h hfound hpending).spares
    · exact Succeeds.spares ⟨none, d, processItem_passed hfound hpending⟩

/-! Calls. -/

namespace Call

/-- Calls lead from stores that operations lead to to such stores. -/
theorem reached (policy : Policy) (c : Call) (h : d.store.Reached) :
    (c.after policy d).store.Reached := by
  have hgathers : Gathers fun s s' => s.Reached → s'.Reached :=
    ⟨fun _ hs => hs, fun h h' hs => h' (h hs)⟩
  have hleads : d.store.Reached → (c.after policy d).store.Reached :=
    keeps_of_issues hgathers fun _ hok hs => hs.perform hok
  exact hleads h

theorem reached_all (policy : Policy) (calls : List Call) (h : d.store.Reached) :
    (calls.foldl (fun d c => c.after policy d) d).store.Reached := by
  induction calls generalizing d with
  | nil => exact h
  | cons c rest ih => exact ih (c.reached policy h)

theorem spares_of {c : Call} {α : Type} {p : Procedure α} {f : α → List String}
    (h : c.procedure policy = p >>= fun a => pure (f a)) (hp : p.SparesOnFault d) :
    (c.procedure policy).SparesOnFault d := by
  rw [h]
  exact hp.last f

/-- A call that is refused changes nothing: every order, item, file, result,
merged table and report list is as before, and so is every blob. -/
theorem refused_untouched (h : d.store.Reached) (hfresh : d.Fresh) (policy : Policy) (c : Call)
    (hc : ∀ order, c ≠ .runMerge order) {fault : ServiceFault}
    (hrefused : ((c.procedure policy).run d).1 = .error fault) :
    (c.after policy d).store = d.store ∧ (c.after policy d).disk.files = d.disk.files := by
  have hspares : (c.procedure policy).SparesOnFault d := by
    cases c with
    | createOrder name => exact spares_of rfl (createOrder_spares name)
    | getOrder order => exact spares_of rfl (Looks.order order).spares
    | getItem item => exact spares_of rfl (Looks.item item).spares
    | listItems order => exact spares_of rfl (Looks.look _).spares
    | addItem order company documentType name =>
      exact spares_of rfl (addItem_spares order company documentType name)
    | uploadFile item role filename content =>
      exact spares_of rfl (uploadFile_spares hfresh item role filename content)
    | attachFile file => exact spares_of rfl (SparesOnFault.store _ d)
    | setMappingKeys order keys => exact spares_of rfl (setMappingKeys_spares order keys)
    | uploadMappingFile order filename content =>
      exact spares_of rfl (uploadMappingFile_spares order filename content)
    | mappingFileHeaders order => exact spares_of rfl (mappingFileHeaders_looks order).spares
    | submit order => exact submit_spares order
    | processItem item => exact spares_of rfl (processItem_spares h.keyed item)
    | rollup order => exact spares_of rfl (rollup_spares order)
    | retryItem item => exact spares_of rfl (retryItem_spares item)
    | runMerge order => exact absurd rfl (hc order)
    | mergedTable order => exact spares_of rfl (mergedTable_looks order).spares
    | exportReport order => exact spares_of rfl (exportReport_spares order)
  obtain ⟨hstore, hfiles⟩ := hspares fault hrefused
  exact ⟨hstore, hfiles⟩

end Call

/-! An order with a mapping file and an item. -/

private def filingPolicy : Policy := ⟨.standard, .tolerant, ⟨"blobs"⟩, .local, false⟩

private def filingCalls : List Call :=
  [.createOrder none, .addItem (Desk.idOf 0) "acme" "invoice" "scan",
    .uploadMappingFile (Desk.idOf 0) "keys.csv" (Text.Utf8.ofText "id")]

private def filedDesk : Desk := filingCalls.foldl (fun d c => c.after filingPolicy d) Desk.empty

private def strayUpload : Call := .uploadFile (Desk.idOf 1) .primary "../page.json" []

/-- A file that cannot be stored under its name is refused once everything else
is checked. -/
theorem Call.refused_untouched_upload : ∃ d : Desk, d.store.Reached ∧ d.Fresh ∧
    d.disk.files.length = 1 ∧
    ((strayUpload.procedure filingPolicy).run d).1 =
      .error (.blob (.invalidReference "../page.json")) ∧
    (strayUpload.after filingPolicy d).store = d.store ∧
    (strayUpload.after filingPolicy d).disk.files = d.disk.files := by
  have hreached : filedDesk.store.Reached := Call.reached_all filingPolicy filingCalls .empty
  have hfacts : filedDesk.store.items.all (·.files.isEmpty) = true ∧
      filedDesk.disk.files.length = 1 ∧
      ((strayUpload.procedure filingPolicy).run filedDesk).1 =
        .error (.blob (.invalidReference "../page.json")) := by
    decide +kernel
  obtain ⟨hnone, hlength, hrefused⟩ := hfacts
  have hfresh : filedDesk.Fresh := by
    intro n _
    rw [Store.hasFile, List.any_eq_false]
    intro i hi
    have hfiles := List.all_eq_true.mp hnone i hi
    rw [List.isEmpty_iff] at hfiles
    simp [hfiles]
  exact ⟨filedDesk, hreached, hfresh, hlength, hrefused,
    Call.refused_untouched hreached hfresh filingPolicy strayUpload (by simp [strayUpload])
      hrefused⟩

end Service

end Collate
