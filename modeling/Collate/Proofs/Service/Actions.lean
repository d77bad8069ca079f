import Collate.Proofs.Blobs
import Collate.Proofs.Service.Interleaved
import Collate.Proofs.Store.History
import Collate.Service.Merging

/-!
What the single actions of a call do. Most of them only look or write a blob: they leave
the store alone and no file on disk is lost. Others announce an event, or perform an
operation of the store, and which operations these are is fixed by the call and its
arguments. Every part of a call is walked through once. What holds across the operations it
may perform then holds across the call, whether calls are made one after the other or come
in between each other; one that performs none is silent, and one that announces nothing is
mute.
-/

namespace Collate

namespace Procedure

variable {α β : Type} {p : Procedure α} {f : α → Procedure β}
  {may : Store.Call → Prop} {speaks : Prop}

/-- What an action of the service does to the desk. -/
inductive Deed (may : Store.Call → Prop) (speaks : Prop) (d d' : Desk) : Prop
  /-- It performs an operation of the store that it may perform. -/
  | performs {k : Store.Call} (hmay : may k) (hok : k.perform d.store = .ok d'.store)
      (hdisk : d'.disk = d.disk) (hevents : d'.events = d.events)
  /-- It announces an event, if it may do so. -/
  | announces {event : ProgressEvent} (hspeaks : speaks) (hstore : d'.store = d.store)
      (hdisk : d'.disk = d.disk) (hevents : d'.events = d.events ++ [event])
  /-- It leaves store and events alone. Files may be new on disk. -/
  | besides (hstore : d'.store = d.store) (hdisk : d.disk.Keeps d'.disk)
      (hevents : d'.events = d.events)

section

variable {d d' : Desk} (h : Deed may speaks d d')

include h

theorem Deed.store {R : Store → Store → Prop} (hrefl : ∀ s, R s s)
    (hmay : ∀ {k s s'}, may k → k.perform s = .ok s' → R s s') : R d.store d'.store := by
  cases h with
  | performs hk hok => exact hmay hk hok
  | announces _ hstore => exact hstore ▸ hrefl _
  | besides hstore => exact hstore ▸ hrefl _

theorem Deed.mono {speaks' : Prop} (himp : speaks → speaks') : Deed may speaks' d d' := by
  cases h with
  | performs hmay hok hdisk hevents => exact .performs hmay hok hdisk hevents
  | announces hspeaks hstore hdisk hevents => exact .announces (himp hspeaks) hstore hdisk hevents
  | besides hstore hdisk hevents => exact .besides hstore hdisk hevents

theorem Deed.disk : d.disk.Keeps d'.disk := by
  cases h with
  | performs _ _ hdisk => exact hdisk ▸ .refl _
  | announces _ _ hdisk => exact hdisk ▸ .refl _
  | besides _ hdisk => exact hdisk

theorem Deed.events : d'.events = d.events ∨ speaks ∧ ∃ event, d'.events = d.events ++ [event] := by
  cases h with
  | performs _ _ _ hevents => exact .inl hevents
  | announces hspeaks _ _ hevents => exact .inr ⟨hspeaks, _, hevents⟩
  | besides _ _ hevents => exact .inl hevents

end

/-- Whether every action of a procedure is one that may be done. -/
abbrev Performs (may : Store.Call → Prop) (speaks : Prop) (p : Procedure α) : Prop :=
  p.Acts (Deed may speaks)

/-- Whether a procedure neither performs an operation nor announces anything. -/
abbrev Harmless (p : Procedure α) : Prop := p.Performs (fun _ => False) False

/-! Single actions of the service. -/

namespace Performs

/-- An operation that takes place or is refused. -/
theorem store {op : StoreOp α} (k : Store.Call) (hmay : may k)
    (hk : ∀ s, k.perform s = (op s).map (·.2)) : (store op).Performs may speaks := by
  intro d
  refine ⟨?_, trivial⟩
  dsimp only
  split
  · rename_i hok
    exact .performs hmay (by rw [hk, hok]; rfl) rfl rfl
  · exact .besides rfl (.refl _) rfl

theorem need (result : Except ServiceFault α) : (need result).Performs may speaks := trivial

/-- An action that leaves store, disk and events alone. -/
theorem perform {action : Desk → α × Desk} (h : ∀ d, (action d).2.store = d.store ∧
    (action d).2.disk = d.disk ∧ (action d).2.events = d.events) :
    (perform action).Performs may speaks :=
  fun d => ⟨.besides (h d).1 ((h d).2.1 ▸ .refl _) (h d).2.2, trivial⟩

theorem look (query : Store → α) : (look query).Performs may speaks :=
  perform fun _ => ⟨rfl, rfl, rfl⟩

theorem order (id : String) : (order id).Performs may speaks :=
  Acts.bind (look _) fun _ => need _

theorem item (id : String) : (item id).Performs may speaks :=
  Acts.bind (look _) fun _ => need _

theorem now : now.Performs may speaks := perform fun _ => ⟨rfl, rfl, rfl⟩

theorem newIds (count : Nat) : (newIds count).Performs may speaks :=
  perform fun _ => ⟨rfl, rfl, rfl⟩

theorem readBlob (policy : Policy) (reference : String) :
    (readBlob policy reference).Performs may speaks := perform fun _ => ⟨rfl, rfl, rfl⟩

/-- A blob that is written is a file more. -/
theorem writeBlob (policy : Policy) (directory filename : String) (content : Octets) :
    (writeBlob policy directory filename content).Performs may speaks :=
  Acts.bind (fun d => ⟨.besides rfl (policy.blobs.keeps_write d.disk directory filename content)
    rfl, trivial⟩) fun _ => need _

theorem readTable (path : String) : (readTable path).Performs may speaks :=
  Acts.bind (perform fun _ => ⟨rfl, rfl, rfl⟩) fun _ => need _

theorem announce (policy : Policy) (event : ProgressEvent) :
    (announce policy event).Performs may True := by
  unfold Procedure.announce
  split
  · exact fun d => ⟨.announces trivial rfl rfl rfl, trivial⟩
  · trivial

theorem announceOrder (policy : Policy) (id : String) (phase : Phase) (message : String) :
    (announceOrder policy id phase message).Performs may True := by
  unfold Procedure.announceOrder
  split
  · exact Acts.bind (order id) fun _ => announce policy _
  · trivial

/-! What follows of a whole procedure. -/

/-- What holds across each operation that may be performed holds across each action. -/
theorem does {G : Store → Store → Prop} (h : p.Performs may speaks) (hrefl : ∀ s, G s s)
    (hmay : ∀ {k s s'}, may k → k.perform s = .ok s' → G s s') : p.Does G :=
  h.mono fun _ _ hdeed => hdeed.store hrefl hmay

/-- What gathers and holds across each operation that may be performed holds across a run. -/
theorem keeps {R : Store → Store → Prop} (h : p.Performs may speaks) (hR : Gathers R)
    (hmay : ∀ {k s s'}, may k → k.perform s = .ok s' → R s s') : p.Keeps R :=
  Acts.run (R := fun d d' => R d.store d'.store) h (fun d => hR.refl d.store) hR.trans
    fun _ _ hdeed => hdeed.store hR.refl hmay

theorem keeps_disk (h : p.Performs may speaks) (d : Desk) : d.disk.Keeps (p.run d).2.disk :=
  Acts.run (R := fun d d' => d.disk.Keeps d'.disk) h (fun d => .refl d.disk)
    (fun h h' => h.trans h') (fun _ _ hdeed => hdeed.disk) d

/-- A procedure that performs no operation does not change the store. -/
theorem silent (h : p.Performs (fun _ => False) True) : p.Silent :=
  h.does (fun _ => rfl) False.elim

theorem keeps_of_silent {R : Store → Store → Prop} (h : p.Performs (fun _ => False) True)
    (hR : Gathers R) : p.Keeps R :=
  h.keeps hR False.elim

end Performs

end Procedure

namespace Service

open Procedure

inductive Call where
  | createOrder (name : Option String)
  | getOrder (order : String)
  | getItem (item : String)
  | listItems (order : String)
  | addItem (order company documentType name : String)
  | uploadFile (item : String) (role : FileRole) (filename : String) (content : Octets)
  | attachFile (file : FileRef)
  | setMappingKeys (order : String) (keys : List String)
  | uploadMappingFile (order filename : String) (content : Octets)
  | mappingFileHeaders (order : String)
  | submit (order : String)
  | processItem (item : String)
  | rollup (order : String)
  | retryItem (item : String)
  | runMerge (order : String)
  | mergedTable (order : String)
  | exportReport (order : String)

namespace Call

/-- What a call does. Of what it gives only the ids matter here of the items
that the caller is asked to have processed. -/
def procedure (policy : Policy) : Call → Procedure (List String)
  | .createOrder name => do let _ ← Service.createOrder name; pure []
  | .getOrder order => do let _ ← Procedure.order order; pure []
  | .getItem item => do let _ ← Procedure.item item; pure []
  | .listItems order => do let _ ← Procedure.look (·.itemsOf order); pure []
  | .addItem order company documentType name => do
    let _ ← Service.addItem order company documentType name
    pure []
  | .uploadFile item role filename content => do
    let _ ← Service.uploadFile policy item role filename content
    pure []
  | .attachFile file => do Service.attachFile file; pure []
  | .setMappingKeys order keys => do let _ ← Service.setMappingKeys order keys; pure []
  | .uploadMappingFile order filename content => do
    let _ ← Service.uploadMappingFile policy order filename content
    pure []
  | .mappingFileHeaders order => do let _ ← Service.mappingFileHeaders policy order; pure []
  | .submit order => Service.submit policy order
  | .processItem item => do let _ ← Service.processItem policy item; pure []
  | .rollup order => do let _ ← Service.rollup policy order; pure []
  | .retryItem item => do pure [(← Service.retryItem policy item).id]
  | .runMerge order => do let _ ← Service.runMerge policy order; pure []
  | .mergedTable order => do let _ ← Service.mergedTable order; pure []
  | .exportReport order => do let _ ← Service.exportReport policy order; pure []

def after (policy : Policy) (c : Call) (d : Desk) : Desk := ((c.procedure policy).run d).2

end Call

def Call.Speaks : Call → Prop
  | .submit _ | .processItem _ | .rollup _ | .retryItem _ | .runMerge _ | .exportReport _ => True
  | _ => False

/-- The operations of the store that a call may perform. -/
inductive Call.Issues : Call → Store.Call → Prop
  | createOrder (name : Option String) (id : String) :
      Issues (.createOrder name) (.createOrder id name)
  | addItem (order company documentType name id : String) (now : Time.Timestamp) :
      Issues (.addItem order company documentType name)
        (.addItem (Item.create id order company documentType name now))
  | uploadFile [ContentType.Registry] (item : String) (role : FileRole) (filename : String)
      (content : Octets) (id owner reference : String) :
      Issues (.uploadFile item role filename content)
        (.attachFile (FileRef.create id owner role filename content.length reference))
  | attachFile (file : FileRef) : Issues (.attachFile file) (.attachFile file)
  /-- Keys are set only as the check gives them. -/
  | setMappingKeys (order : String) {given keys : List String}
      (hkeys : checkKeys given = .ok keys) :
      Issues (.setMappingKeys order given) (.setMappingKeys order keys)
  | uploadMappingFile (order filename : String) (content : Octets) (reference : String) :
      Issues (.uploadMappingFile order filename content) (.setMappingFile order reference)
  | submit (order : String) : Issues (.submit order) (.submit order)
  | begin (item : String) (now : Time.Timestamp) : Issues (.processItem item) (.begin item now)
  | putResult (item : String) (result : ExtractionResult) :
      Issues (.processItem item) (.putResult result)
  | resolve (item : String) (held : Item) : Issues (.processItem item) (.resolve held)
  | rollUpProcessed (item : String) (snapshot : Order) (target : OrderStatus) :
      Issues (.processItem item) (.rollUp snapshot target)
  | rollup (order : String) (snapshot : Order) (target : OrderStatus) :
      Issues (.rollup order) (.rollUp snapshot target)
  /-- Only the next try of an item is put in besides new items. -/
  | retryItem (item : String) {failed next : Item} {idAt : Nat → String} {now : Time.Timestamp}
      (hnext : failed.retryFrom idAt now = .ok next) : Issues (.retryItem item) (.retry next)
  | saveMerged (order id : String) (table : Merged) :
      Issues (.runMerge order) (.saveMerged id table)
  | noteError (order id : String) (error : Option String) :
      Issues (.runMerge order) (.noteError id error)
  | complete (order id : String) : Issues (.runMerge order) (.moveOrder id .mapping .completed)
  | exportReport (order : String) (paths : List String) :
      Issues (.exportReport order) (.setReportPaths order paths)

variable {may : Store.Call → Prop} {speaks : Prop}

/-! Parts of calls that only look. -/

theorem planOf?_performs (item : Item) : (planOf? item).Performs may speaks := by
  unfold planOf? plan?
  refine Acts.bind (Performs.look _) fun binding => ?_
  have hbound : (boundTemplate? binding).Performs may speaks := by
    unfold boundTemplate?
    split
    · exact Performs.look _
    · trivial
  refine Acts.bind hbound fun bound => ?_
  split
  · trivial
  · exact Acts.bind (Performs.look _) fun _ => trivial

theorem anyPlan_performs (items : List Item) : (anyPlan items).Performs may speaks := by
  induction items with
  | nil => trivial
  | cons item rest ih =>
    refine Acts.bind (planOf?_performs item) fun plan => ?_
    split
    · trivial
    · exact ih

theorem loadTables_performs (policy : Policy) (item : Item) :
    (loadTables policy item).Performs may speaks :=
  Acts.bind (Performs.look _) fun _ => trivial

theorem extractFile_performs (policy : Policy) (item : Item) (file : FileRef) :
    (extractFile policy item file).Performs may speaks := by
  unfold extractFile
  refine Acts.bind (Performs.readBlob policy _) fun content => ?_
  split
  · trivial
  · refine Acts.bind (Performs.perform fun _ => ⟨rfl, rfl, rfl⟩) fun extracted => ?_
    split
    · trivial
    · trivial

theorem checkResults_performs (policy : Policy) (item : Item) (keys : Option (List String)) :
    (checkResults policy item keys).Performs may speaks := by
  unfold checkResults
  refine Acts.bind (loadTables_performs policy item).attempt fun loaded => ?_
  split
  · trivial
  · trivial

theorem joinPlan_performs (order : Order) (item : Item) :
    (joinPlan order item).Performs may speaks := by
  unfold joinPlan
  refine Acts.bind (planOf?_performs item) fun plan => ?_
  split
  · trivial
  · trivial
  · trivial
  · trivial

theorem mergeItem_performs (policy : Policy) (order : Order) (item : Item) :
    (mergeItem policy order item).Performs may speaks := by
  unfold mergeItem
  refine Acts.bind (joinPlan_performs order item) fun plan => ?_
  refine Acts.bind (loadTables_performs policy item) fun tables => ?_
  dsimp only
  split
  · exact Acts.bind (Performs.readTable _) fun _ => trivial
  · trivial

theorem mergeItems_performs (policy : Policy) (order : Order) (items : List Item) :
    (mergeItems policy order items).Performs may speaks := by
  induction items with
  | nil => trivial
  | cons item rest ih =>
    refine Acts.bind (mergeItem_performs policy order item) fun merged => ?_
    exact Acts.bind ih fun _ => trivial

theorem buildMerged_performs (policy : Policy) (order : Order) :
    (buildMerged policy order).Performs may speaks :=
  Acts.bind (Performs.look _) fun _ =>
    Acts.bind (mergeItems_performs policy order _) fun _ => trivial

theorem isRerun_performs (order : Order) : (isRerun order).Performs may speaks := by
  unfold isRerun
  split
  · exact Performs.look _
  · trivial

theorem mergedTable_performs (id : String) : (mergedTable id).Performs may speaks := by
  refine Acts.bind (Performs.look _) fun found => ?_
  split
  · trivial
  · trivial

theorem mappingFileHeaders_performs (policy : Policy) (order : String) :
    (mappingFileHeaders policy order).Performs may speaks := by
  unfold mappingFileHeaders
  refine Acts.bind (Performs.order order) fun o => ?_
  split
  · trivial
  · refine Acts.bind (Performs.readBlob policy _) fun content => ?_
    refine Acts.bind (Performs.need _) fun octets => ?_
    extract_lets headers
    -- which headers they are does not matter, and must not be looked into
    clear_value headers
    exact Acts.bind (Performs.need _) fun _ => trivial

/-! Calls. -/

theorem createOrder_performs (name : Option String) :
    (createOrder name).Performs (Call.createOrder name).Issues speaks := by
  unfold createOrder
  refine Acts.bind (Performs.newIds 1) fun idAt => ?_
  refine Acts.bind ?_ fun _ => trivial
  exact Performs.store (.createOrder (idAt 0) name) (.createOrder name _) fun _ => rfl

theorem addItem_performs (order company documentType name : String) :
    (addItem order company documentType name).Performs
      (Call.addItem order company documentType name).Issues speaks := by
  unfold addItem
  refine Acts.bind (Performs.newIds 1) fun idAt => ?_
  refine Acts.bind Performs.now fun now => ?_
  refine Acts.bind ?_ fun _ => trivial
  exact Performs.store (.addItem (Item.create (idAt 0) order company documentType name now))
    (.addItem ..) fun _ => rfl

/-- What is done with a new file is done with one that has a new id. -/
theorem newFile_bind [ContentType.Registry] {α : Type} {item filename reference : String}
    {role : FileRole} {length : Nat} {f : FileRef → Procedure α}
    (hf : ∀ id, (f (FileRef.create id item role filename length reference)).Performs may speaks) :
    (newFile item role filename length reference >>= f).Performs may speaks :=
  fun d => ⟨.besides rfl (.refl d.disk) rfl, hf (Desk.idOf (d.ids + 0))⟩

theorem uploadFile_performs (policy : Policy) (item : String) (role : FileRole) (filename : String)
    (content : Octets) : (uploadFile policy item role filename content).Performs
      (Call.uploadFile item role filename content).Issues speaks := by
  unfold uploadFile
  refine Acts.bind (Performs.item item) fun i => ?_
  refine Acts.bind (Performs.order i.orderId) fun o => ?_
  refine Acts.bind (Performs.need _) fun _ => ?_
  refine Acts.bind (Performs.need _) fun _ => ?_
  refine Acts.bind (Performs.writeBlob policy _ filename content) fun reference => ?_
  refine @newFile_bind _ _ policy.types _ _ _ _ _ _ _ fun id => ?_
  exact Acts.bind (Performs.store (.attachFile _) (@Call.Issues.uploadFile policy.types ..)
    fun _ => rfl) fun _ => trivial

theorem attachFile_performs (file : FileRef) :
    (attachFile file).Performs (Call.attachFile file).Issues speaks :=
  Performs.store (.attachFile file) (.attachFile file) fun _ => rfl

theorem setMappingKeys_performs (order : String) (given : List String) :
    (setMappingKeys order given).Performs (Call.setMappingKeys order given).Issues speaks := by
  unfold setMappingKeys
  refine Acts.need_bind fun keys hkeys => ?_
  refine Acts.bind ?_ fun _ => trivial
  exact Performs.store (.setMappingKeys order keys)
    (.setMappingKeys order (Except.mapError_eq_ok.mp hkeys)) fun _ => rfl

theorem uploadMappingFile_performs (policy : Policy) (order filename : String)
    (content : Octets) : (uploadMappingFile policy order filename content).Performs
      (Call.uploadMappingFile order filename content).Issues speaks := by
  unfold uploadMappingFile
  refine Acts.bind (Performs.order order) fun o => ?_
  refine Acts.bind (Performs.need _) fun _ => ?_
  refine Acts.bind (Performs.need _) fun headers => ?_
  refine Acts.bind (Performs.writeBlob policy _ filename content) fun reference => ?_
  refine Acts.bind ?_ fun _ => trivial
  exact Performs.store (.setMappingFile order reference)
    (.uploadMappingFile order filename content reference) fun _ => rfl

theorem submit_performs (policy : Policy) (order : String) :
    (submit policy order).Performs (Call.submit order).Issues True := by
  unfold submit
  refine Acts.bind (Performs.store (.submit order) (.submit order) fun _ => rfl) fun pending => ?_
  exact Acts.bind (Performs.announceOrder policy order _ _) fun _ => trivial

/-- Rolling up may be part of another call. -/
theorem rollup_performs (policy : Policy) (id : String)
    (hmay : ∀ snapshot target, may (.rollUp snapshot target)) :
    (rollup policy id).Performs may True := by
  unfold rollup
  refine Acts.bind (Performs.order id) fun order => ?_
  split
  · trivial
  · refine Acts.bind (Performs.look _) fun items => ?_
    extract_lets completed finish
    have hfinish : ∀ resolvable, (finish resolvable).Performs may True := by
      intro resolvable
      simp only [finish]
      split
      · trivial
      · rename_i target _
        refine Acts.bind (Performs.store (.rollUp order target) (hmay order target)
          fun _ => rfl) fun moved => ?_
        split
        · exact Acts.bind (Performs.announceOrder policy id _ _) fun _ => trivial
        · trivial
    split
    · exact hfinish _
    · exact Acts.bind (anyPlan_performs completed) hfinish

theorem extractFiles_performs (policy : Policy) (item : Item) {files : List FileRef}
    (hmay : ∀ file ∈ files, ∀ outcome, may (.putResult ⟨file.id, file.itemId, outcome⟩)) :
    (extractFiles policy item files).Performs may speaks := by
  induction files with
  | nil => trivial
  | cons file rest ih =>
    obtain ⟨hfile, hrest⟩ := List.forall_mem_cons.mp hmay
    unfold extractFiles
    refine Acts.bind (extractFile_performs policy item file) fun outcome => ?_
    have hput : (Procedure.store (Store.putResult ⟨file.id, file.itemId, outcome⟩)).Performs
        may speaks :=
      Performs.store (.putResult ⟨file.id, file.itemId, outcome⟩) (hfile outcome) fun _ => rfl
    refine Acts.bind hput.attempt fun put => ?_
    split
    · trivial
    · split
      · exact ih hrest
      · trivial

theorem examine_performs (policy : Policy) (item : Item) (keys : Option (List String))
    (hmay : ∀ file ∈ item.files, ∀ outcome, may (.putResult ⟨file.id, file.itemId, outcome⟩)) :
    (examine policy item keys).Performs may speaks := by
  unfold examine
  split
  · trivial
  · refine Acts.bind (extractFiles_performs policy item hmay) fun extracted => ?_
    split
    · exact checkResults_performs policy item keys
    · trivial

theorem processItem_performs (policy : Policy) (id : String) :
    (processItem policy id).Performs (Call.processItem id).Issues True := by
  unfold processItem
  refine Acts.bind Performs.now fun now => ?_
  refine Acts.bind (Performs.store (.begin id now) (.begin id now) fun _ => rfl) fun started => ?_
  split
  · trivial
  · rename_i begun
    refine Acts.bind (Performs.order _) fun order => ?_
    refine Acts.bind (Performs.announce policy _) fun _ => ?_
    refine Acts.bind (examine_performs policy begun order.mappingKeys fun _ _ _ =>
      .putResult id _) fun outcome => ?_
    refine Acts.bind Performs.now fun finished => ?_
    refine Acts.bind (Performs.need _) fun resolved => ?_
    refine Acts.bind (Performs.store (.resolve resolved) (.resolve id resolved) fun _ => rfl)
      fun order => ?_
    refine Acts.bind (Performs.announce policy _) fun _ => ?_
    split
    · exact Acts.bind (rollup_performs policy order.id (.rollUpProcessed id)) fun _ => trivial
    · trivial

theorem retryItem_performs (policy : Policy) (id : String) :
    (retryItem policy id).Performs (Call.retryItem id).Issues True := by
  unfold retryItem
  refine Acts.bind (Performs.item id) fun failed => ?_
  refine Acts.bind (Performs.newIds _) fun idAt => ?_
  refine Acts.bind Performs.now fun now => ?_
  refine Acts.need_bind fun next hnext => ?_
  refine Acts.bind (Performs.store (.retry next)
    (.retryItem id (Except.mapError_eq_ok.mp hnext)) fun _ => rfl) fun order => ?_
  exact Acts.bind (Performs.announce policy _) fun _ => trivial

theorem keepMerged_performs (policy : Policy) (id : String) (order : Order) (merged : Merged) :
    (keepMerged policy order merged).Performs (Call.runMerge id).Issues True := by
  unfold keepMerged
  refine Acts.bind (Performs.store (.saveMerged order.id merged) (.saveMerged id _ _)
    fun _ => rfl) fun _ => ?_
  refine Acts.bind (Performs.store (.noteError order.id none) (.noteError id _ _)
    fun _ => rfl) fun _ => ?_
  split
  · refine Acts.bind (Performs.store (.moveOrder order.id .mapping .completed) (.complete id _)
      fun _ => rfl) fun _ => ?_
    exact Performs.announceOrder policy _ _ _
  · exact Performs.announceOrder policy _ _ _

theorem runMerge_performs (policy : Policy) (id : String) :
    (runMerge policy id).Performs (Call.runMerge id).Issues True := by
  unfold runMerge
  refine Acts.bind (Performs.order id) fun order => ?_
  refine Acts.bind (isRerun_performs order) fun rerun => ?_
  extract_lets noted finish
  have hfinish : ∀ u, (finish u).Performs (Call.runMerge id).Issues True := by
    intro u
    refine Acts.bind (buildMerged_performs policy order).attempt fun built => ?_
    split
    · exact Acts.bind (keepMerged_performs policy id order _) fun _ => trivial
    · refine Acts.bind (Performs.store (.noteError id _) (.noteError id id _) fun _ => rfl)
        fun _ => ?_
      exact Acts.bind (Performs.announce policy _) fun _ => trivial
  split
  · exact Acts.bind (Performs.need _) hfinish
  · exact hfinish ()

theorem exportReport_performs (policy : Policy) (id : String) :
    (exportReport policy id).Performs (Call.exportReport id).Issues True := by
  unfold exportReport
  refine Acts.bind (Performs.order id) fun order => ?_
  refine Acts.bind (mergedTable_performs id) fun merged => ?_
  refine Acts.bind (Performs.writeBlob policy _ _ _) fun reference => ?_
  refine Acts.bind (Performs.store (.setReportPaths id _) (.exportReport id _) fun _ => rfl)
    fun _ => ?_
  exact Acts.bind (Performs.announce policy _) fun _ => trivial

/-! Any call. -/

namespace Call

/-- Every action of a call performs an operation that the call may perform, announces an event
if the call is one that does, or leaves the store alone and all files on disk. -/
theorem performs (policy : Policy) (c : Call) :
    (c.procedure policy).Performs c.Issues c.Speaks := by
  have hpure : ∀ {α : Type} {p : Procedure α} {f : α → List String},
      p.Performs c.Issues c.Speaks → (p >>= fun a => pure (f a)).Performs c.Issues c.Speaks :=
    fun hp => Acts.bind hp fun _ => trivial
  cases c with
  | createOrder name => exact hpure (createOrder_performs name)
  | getOrder order => exact hpure (Performs.order order)
  | getItem item => exact hpure (Performs.item item)
  | listItems order => exact hpure (Performs.look (·.itemsOf order))
  | addItem order company documentType name =>
    exact hpure (addItem_performs order company documentType name)
  | uploadFile item role filename content =>
    exact hpure (uploadFile_performs policy item role filename content)
  | attachFile file => exact hpure (f := fun _ => []) (attachFile_performs file)
  | setMappingKeys order keys => exact hpure (setMappingKeys_performs order keys)
  | uploadMappingFile order filename content =>
    exact hpure (uploadMappingFile_performs policy order filename content)
  | mappingFileHeaders order => exact hpure (mappingFileHeaders_performs policy order)
  | submit order => exact submit_performs policy order
  | processItem item => exact hpure (processItem_performs policy item)
  | rollup order => exact hpure (rollup_performs policy order (.rollup order))
  | retryItem item => exact hpure (retryItem_performs policy item)
  | runMerge order => exact hpure (runMerge_performs policy order)
  | mergedTable order => exact hpure (mergedTable_performs order)
  | exportReport order => exact hpure (exportReport_performs policy order)

/-- No call takes a file from the disk. -/
theorem keeps_disk (policy : Policy) (c : Call) (d : Desk) :
    d.disk.Keeps (c.after policy d).disk :=
  (c.performs policy).keeps_disk d

/-- What gathers and holds across each operation that a call may perform holds across the
call. -/
theorem keeps_of_issues {R : Store → Store → Prop} (hR : Gathers R) {policy : Policy} {c : Call}
    {d : Desk} (hmay : ∀ {k s s'}, c.Issues k → k.perform s = .ok s' → R s s') :
    R d.store (c.after policy d).store :=
  (c.performs policy).keeps hR hmay d

end Call

end Service

end Collate
