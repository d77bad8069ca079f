import Collate.Proofs.Service.Mergeable
import Collate.Proofs.Store.Reached

/-!
Files that come while their item is processed. Processing extracts the files that
the item had when it was begun, and nothing keeps others from attaching more
until it is resolved. What it checks are the former alone, so the item may be
completed with files that have no result, and then its tables cannot be loaded.
-/

namespace Collate

namespace Store

variable {s s' : Store}

def Attaches (s s' : Store) : Prop := ∃ file, attachFile file s = .ok ((), s')

abbrev Collects : Store → Store → Prop := Relation.ReflTransGen Attaches

theorem collects_gathers : Procedure.Gathers Collects where
  refl _ := .refl
  trans h h' := h.trans h'

/-- A file goes under a new id to the item that it is for. -/
theorem Attaches.item? (h : s.Attaches s') : ∃ file owner,
    (∀ i ∈ s.items, ∀ g ∈ i.files, g.id ≠ file.id) ∧ ∀ id, s'.item? id =
      if id = owner then (s.item? id).map fun i => { i with files := i.files ++ [file] }
      else s.item? id := by
  obtain ⟨file, hok⟩ := h
  obtain ⟨owner, -, -, -, -, -, hfresh, rfl⟩ := attachFile_ok hok
  refine ⟨file, owner.id, fun i hi g hg => (freshFiles_ok hfresh).1 i hi g hg file (by simp), ?_⟩
  intro id
  rw [item?_updateItem]
  · split
    · rename_i hhere
      rw [hhere]
    · rfl
  · exact fun _ _ hid => hid

theorem Attaches.results (h : s.Attaches s') : s'.results = s.results := by
  obtain ⟨file, hok⟩ := h
  obtain ⟨-, -, -, -, -, -, -, rfl⟩ := attachFile_ok hok
  rfl

theorem Attaches.reached (h : s.Attaches s') (hs : s.Reached) : s'.Reached := by
  obtain ⟨file, hok⟩ := h
  exact hs.of_ok (.attachFile file) rfl hok

theorem Collects.results (h : s.Collects s') : s'.results = s.results := by
  induction h with
  | refl => rfl
  | tail _ hattaches ih => exact hattaches.results.trans ih

theorem Collects.reached (h : s.Collects s') (hs : s.Reached) : s'.Reached := by
  induction h with
  | refl => exact hs
  | tail _ hattaches ih => exact hattaches.reached ih

/-- Whether an item, if it is there, is not completed. -/
def Open (s : Store) (id : String) : Prop := ∀ i, s.item? id = some i → i.status ≠ .completed

theorem Open.collects {id : String} (h : s.Open id) (hcollects : s.Collects s') : s'.Open id := by
  induction hcollects with
  | refl => exact h
  | tail _ hattaches ih =>
    obtain ⟨file, owner, -, hitem⟩ := hattaches.item?
    intro i' hi'
    rw [hitem] at hi'
    split at hi'
    · obtain ⟨i, hi, rfl⟩ := Option.map_eq_some_iff.mp hi'
      exact ih i hi
    · exact ih i' hi'

/-- An item that was begun with the files of `begun` and got the `late` ones
since, none of which has a result. -/
structure Holds (s : Store) (begun : Item) (late : List FileRef) (i : Item) : Prop where
  reached : s.Reached
  item : s.item? begun.id = some i
  files : i.files = begun.files ++ late
  apart : ∀ f ∈ late, ∀ g ∈ begun.files, g.id ≠ f.id
  bare : ∀ f ∈ late, ∀ r ∈ s.results, r.fileId ≠ f.id

/-- Whether an item is in processing that was begun with the files of `begun`. -/
def InHand (s : Store) (begun : Item) : Prop :=
  ∃ late i, s.Holds begun late i ∧ i.status = .processing

/-- Whether every file of an item has a payload on record. -/
def Extracted (s : Store) (i : Item) : Prop :=
  ∀ f ∈ i.files, ∃ r ∈ s.results, r.fileId = f.id ∧ ∃ raw, r.outcome = .payload raw

/-- Whether the tables of the files of `begun` can be loaded. -/
def Loads (options : FlattenOptions) (begun : Item) (s : Store) : Prop :=
  ∃ tables, Service.ItemTables.ofResults options begun (s.resultsOf begun.id) = .ok tables

/-- Whether an item in processing was examined, and passes only if the tables of the
files of `begun` can be loaded. -/
def Examined (options : FlattenOptions) (begun : Item) (outcome : Except String Unit)
    (s : Store) : Prop :=
  s.InHand begun ∧ (outcome = .ok () → s.Loads options begun)

/-- Whether an item that was begun with the files of `begun` is completed only if
the tables of these can be loaded. -/
def Checked (options : FlattenOptions) (begun : Item) (s : Store) : Prop :=
  ∃ late i, s.Holds begun late i ∧ (i.status = .completed → s.Loads options begun)

variable {options : FlattenOptions} {begun i : Item} {late : List FileRef}

theorem InHand.checked (h : s.InHand begun) : s.Checked options begun := by
  obtain ⟨late, i, hholds, hprocessing⟩ := h
  refine ⟨late, i, hholds, fun hcompleted => ?_⟩
  rw [hprocessing] at hcompleted
  cases hcompleted

theorem resultsOf_perm_of_results (hresults : s'.results = s.results) (item : String) :
    (s'.resultsOf item).Perm (s.resultsOf item) := by
  refine (s'.resultsOf_perm item).trans ?_
  rw [recordedFor, hresults]
  exact (s.resultsOf_perm item).symm

theorem Loads.of_results (h : s.Loads options begun) (hs : s.Reached)
    (hresults : s'.results = s.results) : s'.Loads options begun := by
  obtain ⟨tables, htables⟩ := h
  have honce : ((s.resultsOf begun.id).map (·.fileId)).Nodup := by
    rw [((s.resultsOf_perm begun.id).map _).nodup_iff]
    exact hs.results_nodup.sublist (List.filter_sublist.map _)
  refine ⟨tables, ?_⟩
  rw [← htables]
  exact (Service.ofResults_perm (resultsOf_perm_of_results hresults begun.id).symm honce).symm

/-! What others do. -/

/-- A file that is new is one for which there is no result. -/
theorem Holds.attach (h : s.Holds begun late i) (hattaches : s.Attaches s') :
    ∃ late' i', s'.Holds begun late' i' ∧ i'.status = i.status := by
  have hreached := hattaches.reached h.reached
  have hresults := hattaches.results
  obtain ⟨file, owner, hnew, hitem⟩ := hattaches.item?
  have hitem := hitem begun.id
  by_cases hhere : begun.id = owner
  · rw [if_pos hhere, h.item] at hitem
    obtain ⟨hi, -⟩ := item?_mem h.item
    refine ⟨late ++ [file], { i with files := i.files ++ [file] }, ?_, rfl⟩
    refine ⟨hreached, hitem, by rw [h.files, List.append_assoc], ?_, ?_⟩
    · intro f hf g hg
      rcases List.mem_append.mp hf with hold | hlast
      · exact h.apart f hold g hg
      · rw [List.mem_singleton.mp hlast]
        exact hnew i hi g (by rw [h.files]; simp [hg])
    -- a result of the new file would be for a file that is there already
    · intro f hf r hr
      rw [hresults] at hr
      rcases List.mem_append.mp hf with hold | hlast
      · exact h.bare f hold r hr
      · rw [List.mem_singleton.mp hlast]
        obtain ⟨j, hj, g, hg, hid⟩ := hasFile_iff.mp (h.reached.hasFile r hr)
        exact hid ▸ hnew j hj g hg
  · rw [if_neg hhere, h.item] at hitem
    exact ⟨late, i, ⟨hreached, hitem, h.files, h.apart, hresults ▸ h.bare⟩, rfl⟩

theorem Holds.collects (h : s.Holds begun late i) (hcollects : s.Collects s') :
    ∃ late' i', s'.Holds begun late' i' ∧ i'.status = i.status := by
  induction hcollects with
  | refl => exact ⟨late, i, h, rfl⟩
  | tail _ hattaches ih =>
    obtain ⟨_, _, hholds, hstatus⟩ := ih
    obtain ⟨late', i', hholds', hstatus'⟩ := hholds.attach hattaches
    exact ⟨late', i', hholds', hstatus'.trans hstatus⟩

theorem InHand.collects (h : s.InHand begun) (hcollects : s.Collects s') : s'.InHand begun := by
  obtain ⟨late, i, hholds, hprocessing⟩ := h
  obtain ⟨late', i', hholds', hstatus⟩ := hholds.collects hcollects
  exact ⟨late', i', hholds', hstatus.trans hprocessing⟩

theorem Examined.collects {outcome : Except String Unit} (h : s.Examined options begun outcome)
    (hcollects : s.Collects s') : s'.Examined options begun outcome := by
  obtain ⟨late, i, hholds, -⟩ := h.1
  exact ⟨h.1.collects hcollects, fun hpassed =>
    (h.2 hpassed).of_results hholds.reached hcollects.results⟩

theorem Checked.collects (h : s.Checked options begun) (hcollects : s.Collects s') :
    s'.Checked options begun := by
  obtain ⟨late, i, hholds, hloads⟩ := h
  obtain ⟨late', i', hholds', hstatus⟩ := hholds.collects hcollects
  refine ⟨late', i', hholds', fun hcompleted => ?_⟩
  exact (hloads (hstatus.symm.trans hcompleted)).of_results hholds.reached hcollects.results

/-! What processing does. -/

theorem InHand.of_begin {id : String} {now : Time.Timestamp} (h : s.Reached)
    (hok : begin id now s = .ok (some begun, s')) : s'.InHand begun := by
  have hreached : s'.Reached := h.of_ok (.begin id now) rfl hok
  obtain ⟨i, hi, ⟨-, hbegun, rfl⟩ | ⟨-, hnone, -⟩⟩ := begin_ok hok
  · obtain ⟨-, rfl⟩ := item?_mem hi
    obtain rfl := Option.some.inj hbegun
    refine ⟨[], _, ⟨hreached, begun_item? now hi, ?_, nofun, nofun⟩, rfl⟩
    exact (List.append_nil _).symm
  · cases hnone

def Puts (files : List FileRef) (s s' : Store) : Prop :=
  s' = s ∨ ∃ result put, putResult result s = .ok (put, s') ∧ ∃ f ∈ files, f.id = result.fileId

theorem InHand.puts (h : s.InHand begun) (hputs : Puts begun.files s s') : s'.InHand begun := by
  obtain ⟨late, i, hholds, hprocessing⟩ := h
  obtain rfl | ⟨result, put, hok, g, hg, hfile⟩ := hputs
  · exact ⟨late, i, hholds, hprocessing⟩
  · have hitems : s'.items = s.items := (putResult_ok hok).2.1
    refine ⟨late, i, ⟨hholds.reached.of_ok (.putResult result) rfl hok, ?_, hholds.files,
      hholds.apart, fun f hf r hr => ?_⟩, hprocessing⟩
    · rw [item?, hitems]
      exact hholds.item
    · rcases putResult_file hok with hsame | ⟨-, hadded⟩
      · exact hholds.bare f hf r (hsame ▸ hr)
      · rw [hadded, List.mem_append, List.mem_singleton] at hr
        rcases hr with hold | rfl
        · exact hholds.bare f hf r hold
        · exact hfile ▸ hholds.apart f hf g hg

/-- The item may be resolved as completed, if the tables of the files that it was
begun with can be loaded. -/
theorem InHand.resolve {held : Item} {o : Order} (h : s.InHand begun) (hid : held.id = begun.id)
    (hloads : held.status = .completed → s.Loads options begun)
    (hok : Store.resolve held s = .ok (o, s')) : s'.Checked options begun := by
  obtain ⟨late, i, hholds, -⟩ := h
  have hreached : s'.Reached := hholds.reached.of_ok (.resolve held) rfl hok
  obtain ⟨-, -, rfl, -⟩ := resolve_ok hok
  refine ⟨late, settle held i, ⟨hreached, ?_, hholds.files, hholds.apart, hholds.bare⟩, ?_⟩
  · have hitem : (s.updateItem held.id (settle held)).item? begun.id = some (settle held i) := by
      rw [item?_updateItem, if_pos hid.symm, hid, hholds.item]
      · rfl
      · exact fun _ _ hid => hid
    exact hitem
  · exact fun hcompleted => (hloads hcompleted).of_results hholds.reached rfl

structure Stays (s s' : Store) : Prop where
  reached : s.Reached → s'.Reached
  items : s'.items = s.items
  results : s'.results = s.results

theorem Stays.refl (s : Store) : s.Stays s := ⟨id, rfl, rfl⟩

theorem stays_rollUp {snapshot : Order} {target : OrderStatus} {moved : Bool}
    (hok : rollUp snapshot target s = .ok (moved, s')) : s.Stays s' := by
  have hreached : s.Reached → s'.Reached := fun h => h.of_ok (.rollUp snapshot target) rfl hok
  obtain ⟨-, -, ⟨-, -, -, -, rfl⟩ | ⟨-, rfl⟩⟩ := rollUp_ok hok
  · exact ⟨hreached, rfl, rfl⟩
  · exact .refl s'

theorem Checked.stays (h : s.Checked options begun) (hstays : s.Stays s') :
    s'.Checked options begun := by
  obtain ⟨late, i, hholds, hloads⟩ := h
  refine ⟨late, i, ⟨hstays.reached hholds.reached, ?_, hholds.files, hholds.apart, ?_⟩, ?_⟩
  · rw [item?, hstays.items]
    exact hholds.item
  · rw [hstays.results]
    exact hholds.bare
  · exact fun hcompleted => (hloads hcompleted).of_results hholds.reached hstays.results

end Store

namespace Service

open Procedure

variable {policy : Policy} {id : String} {d : Desk} {begun : Item} {s : Store}

/-! Others. -/

inductive Filing where
  | upload (policy : Policy) (item : String) (role : FileRole) (filename : String)
      (content : Octets)
  | attach (file : FileRef)

def Filing.procedure : Filing → Procedure Unit
  | .upload policy item role filename content => do
    let _ ← uploadFile policy item role filename content
    pure ()
  | .attach file => attachFile file

theorem attachFile_does (file : FileRef) : (attachFile file).Does Store.Collects :=
  Does.store (fun _ => .refl) fun hok => .single ⟨file, hok⟩

theorem uploadFile_does (policy : Policy) (item : String) (role : FileRole) (filename : String)
    (content : Octets) : (uploadFile policy item role filename content).Does Store.Collects := by
  have hperforms : (uploadFile policy item role filename content).Performs
      (Call.uploadFile item role filename content).Issues False :=
    uploadFile_performs policy item role filename content
  refine hperforms.does (fun _ => .refl) fun hmay hok => ?_
  cases hmay with
  | uploadFile =>
    obtain ⟨_, hok⟩ := Store.map_snd_eq_ok.mp hok
    exact .single ⟨_, hok⟩

theorem Filing.does (k : Filing) : k.procedure.Does Store.Collects := by
  cases k with
  | upload policy item role filename content =>
    exact Acts.bind (uploadFile_does policy item role filename content) fun _ => trivial
  | attach file => exact attachFile_does file

/-! The parts of processing. -/

theorem extractFiles_does (policy : Policy) (item : Item) (files : List FileRef) :
    (extractFiles policy item files).Does (Store.Puts files) := by
  have hputs : (extractFiles policy item files).Performs
      (fun k => ∃ result, k = .putResult result ∧ ∃ f ∈ files, f.id = result.fileId) True :=
    extractFiles_performs policy item fun f hf _ => ⟨_, rfl, f, hf, rfl⟩
  refine hputs.does (fun _ => .inl rfl) ?_
  rintro _ s s' ⟨result, rfl, hfile⟩ hok
  obtain ⟨put, hok⟩ := Store.map_snd_eq_ok.mp hok
  exact .inr ⟨result, put, hok, hfile⟩

theorem rollup_does (policy : Policy) (id : String) : (rollup policy id).Does Store.Stays := by
  have hrolls : (rollup policy id).Performs
      (fun k => ∃ snapshot target, k = .rollUp snapshot target) True :=
    rollup_performs policy id fun snapshot target => ⟨snapshot, target, rfl⟩
  refine hrolls.does Store.Stays.refl ?_
  rintro _ s s' ⟨snapshot, target, rfl⟩ hok
  obtain ⟨moved, hok⟩ := Store.map_snd_eq_ok.mp hok
  exact Store.stays_rollUp hok

/-- Loading looks at the results once. -/
theorem loadTables_meets (h : s.InHand begun) : (loadTables policy begun).Meets Store.Collects
    (Store.Checked policy.flatten begun) (fun r t => t.InHand begun ∧
      ∀ tables, r = .ok tables → t.Loads policy.flatten begun) s := by
  intro d hothers
  have hstill := h.collects hothers
  exact ⟨hstill.checked, hstill, fun tables hok => ⟨tables, hok⟩⟩

theorem checkResults_meets (h : s.InHand begun) (keys : Option (List String)) :
    (checkResults policy begun keys).Meets Store.Collects (Store.Checked policy.flatten begun)
      (fun r t => ∀ outcome, r = .ok outcome → t.Examined policy.flatten begun outcome) s := by
  unfold checkResults
  refine Meets.bind (loadTables_meets h).attempt ?_ ?_
  · rintro loaded t ⟨result, heq, hstill, hloads⟩
    obtain rfl := Except.ok.inj heq
    cases loaded with
    | ok tables => exact fun outcome _ => ⟨hstill, fun _ => hloads tables rfl⟩
    | error fault =>
      rintro outcome ⟨⟩
      exact ⟨hstill, nofun⟩
  · exact fun fault t _ => nofun

/-- An item passes only if the tables of the files that it was begun with can be
loaded. -/
theorem examine_meets (h : s.InHand begun) (keys : Option (List String)) :
    (examine policy begun keys).Meets Store.Collects (Store.Checked policy.flatten begun)
      (fun r t => ∀ outcome, r = .ok outcome → t.Examined policy.flatten begun outcome) s := by
  have hfails : ∀ {t : Store} {reason : String}, t.InHand begun → ∀ outcome,
      (.ok (.error reason) : Except ServiceFault (Except String Unit)) = .ok outcome →
        t.Examined policy.flatten begun outcome := by
    rintro t reason ht outcome ⟨⟩
    exact ⟨ht, nofun⟩
  unfold examine
  split
  · exact hfails h
  · have hextracts : (extractFiles policy begun begun.files).Meets Store.Collects
        (Store.Checked policy.flatten begun) (fun _ t => t.InHand begun) s :=
      (extractFiles_does policy begun begun.files).meets (fun _ ht => Store.InHand.checked ht)
        (fun _ _ ht => Store.InHand.collects ht) (fun _ _ ht => Store.InHand.puts ht) h
    refine hextracts.bind (fun extracted t ht => ?_) fun _ _ _ => nofun
    cases extracted with
    | ok u => exact checkResults_meets ht keys
    | error reason => exact hfails ht

/-- Resolving an item that was examined. -/
theorem resolution_meets {outcome : Except String Unit} {result : Except OrderFault Item}
    (h : s.Examined policy.flatten begun outcome) (hresult : ∀ held, result = .ok held →
      held.id = begun.id ∧ (held.status = .completed → outcome = .ok ())) :
    (resolution policy id result).Meets Store.Collects (Store.Checked policy.flatten begun)
      (fun _ t => t.Checked policy.flatten begun) s := by
  cases result with
  | error fault => exact h.1.checked
  | ok held =>
    obtain ⟨hid, hpassed⟩ := hresult held rfl
    unfold resolution
    have hneed : (need ((.ok held : Except OrderFault Item).mapError ServiceFault.order)).Meets
        Store.Collects (Store.Checked policy.flatten begun)
        (fun r t => r = .ok held ∧ t = s) s := ⟨rfl, rfl⟩
    refine hneed.bind ?_ ?_
    · rintro a t ⟨heq, rfl⟩
      obtain rfl := Except.ok.inj heq
      have hresolves : (Procedure.store (Store.resolve a)).Meets Store.Collects
          (Store.Checked policy.flatten begun) (fun _ t => t.Checked policy.flatten begun) t := by
        refine Meets.store ?_ ?_
        · intro t' o s' hothers hok
          obtain ⟨hinhand, hloads⟩ := h.collects hothers
          have hchecked := hinhand.resolve hid (fun hcompleted => hloads (hpassed hcompleted)) hok
          exact ⟨hchecked, hchecked⟩
        · intro t' fault hothers _
          have hinhand := h.1.collects hothers
          exact ⟨hinhand.checked, hinhand.checked⟩
      refine hresolves.bind (fun o t' ht' => ?_) fun _ _ ht' => ht'
      -- nothing that follows changes items or results
      have hrest : (announce policy (resolutionEvent o id a) >>= fun _ =>
          if o.allResolved then do
            let _ ← rollup policy o.id
            pure (some a)
          else pure (some a) : Procedure (Option Item)).Does Store.Stays := by
        have hannounce : (announce policy (resolutionEvent o id a)).Does Store.Stays :=
          (Performs.announce policy _).does Store.Stays.refl False.elim
        refine Acts.bind hannounce fun _ => ?_
        split
        · exact Acts.bind (rollup_does policy o.id) fun _ => trivial
        · trivial
      exact hrest.meets (fun _ ht => ht) (fun _ _ ht => Store.Checked.collects ht)
        (fun _ _ ht => Store.Checked.stays ht) ht'
    · rintro fault t ⟨heq, -⟩
      cases heq

def remainder (policy : Policy) (id : String) : Option Item → Procedure (Option Item)
  | none => pure none
  | some started => do
    let order ← Procedure.order started.orderId
    Procedure.announce policy (ProgressEvent.ofItem order id .itemStarted "Extracting item")
    let outcome ← examine policy started order.mappingKeys
    let finished ← Procedure.now
    resolution policy id <| match outcome with
      | .ok () => started.complete finished
      | .error reason => started.fail reason finished

theorem processItem_eq (policy : Policy) (id : String) : processItem policy id =
    Procedure.now >>= fun now => Procedure.store (Store.begin id now) >>= remainder policy id := by
  unfold processItem
  refine congrArg (Procedure.now >>= ·) (funext fun now => ?_)
  refine congrArg (Procedure.store (Store.begin id now) >>= ·) (funext fun started => ?_)
  cases started with
  | none => rfl
  | some started => rfl

/-- Once an item was begun, it is completed only if the tables of the files that it
was begun with can be loaded, whatever files come in between. -/
theorem remainder_meets (h : s.InHand begun) (hprocessing : begun.status = .processing) :
    (remainder policy id (some begun)).Meets Store.Collects (Store.Checked policy.flatten begun)
      (fun _ _ => True) s := by
  have hsilent : ∀ {γ : Type} {p : Procedure γ} {t : Store}, p.Silent → t.InHand begun →
      p.Meets Store.Collects (Store.Checked policy.flatten begun) (fun _ t => t.InHand begun) t :=
    fun hp ht => hp.meets (fun _ ht => Store.InHand.checked ht)
      (fun _ _ ht => Store.InHand.collects ht) ht
  unfold remainder
  dsimp only
  refine Meets.bind (hsilent (Performs.order begun.orderId).silent h) (fun o t ht => ?_)
    fun _ _ _ => trivial
  refine Meets.bind (hsilent (Performs.announce policy _).silent ht) (fun _ t ht => ?_)
    fun _ _ _ => trivial
  refine Meets.bind (examine_meets ht o.mappingKeys) (fun outcome t ht => ?_) fun _ _ _ => trivial
  have hexamined := ht outcome rfl
  have hclock : Procedure.now.Meets Store.Collects (Store.Checked policy.flatten begun)
      (fun _ t => t.Examined policy.flatten begun outcome) t := Meets.perform fun d hothers =>
    ⟨(hexamined.1.collects hothers).checked, hexamined.collects hothers⟩
  refine hclock.bind (fun finished t ht => ?_) fun _ _ _ => trivial
  refine Meets.mono (resolution_meets ht ?_) fun _ _ _ => trivial
  intro held hheld
  cases outcome with
  | ok u =>
    rw [Item.complete, if_pos hprocessing, Except.ok.injEq] at hheld
    exact ⟨hheld ▸ rfl, fun _ => rfl⟩
  | error reason =>
    dsimp only at hheld
    rw [Item.fail, if_pos hprocessing, Except.ok.injEq] at hheld
    subst hheld
    exact ⟨rfl, nofun⟩

/-! From the start on. -/

theorem begin_some {now : Time.Timestamp} {s s' : Store}
    (hok : Store.begin id now s = .ok (some begun, s')) :
    begun.id = id ∧ begun.status = .processing := by
  obtain ⟨i, hi, ⟨-, hsome, -⟩ | ⟨-, hnone, -⟩⟩ := Store.begin_ok hok
  · rw [Option.some.inj hsome]
    exact ⟨(Store.item?_mem hi).2, rfl⟩
  · cases hnone

/-- What is loaded of an item is on record. -/
theorem HasTable.recorded {options : FlattenOptions} {item : String} {f : FileRef} {table : Table}
    (h : HasTable options (s.resultsOf item) f table) : HasTable options s.results f table := by
  obtain ⟨r, hr, hfile⟩ := h
  exact ⟨r, (Store.mem_recordedFor.mp ((s.resultsOf_perm item).mem_iff.mp hr)).1, hfile⟩

/-- A scene in which an item was not begun, or will not be. -/
structure Waiting (policy : Policy) (id : String) (x : Scene (Option Item)) : Prop where
  reached : x.desk.store.Reached
  opened : x.desk.store.Open id
  others : ∀ q ∈ x.others, q.Does Store.Collects
  work : x.work = processItem policy id ∨
    (∃ now, x.work = (Procedure.store (Store.begin id now) >>= remainder policy id)) ∨
      ∃ result, x.work = .done result

/-- An item that waits goes on to do so, or is begun. -/
theorem Waiting.step {x y : Scene (Option Item)} (h : Waiting policy id x)
    (hstep : Scene.Step Filing.procedure x y) : Waiting policy id y ∨ ∃ now begun,
      Store.begin id now x.desk.store = .ok (some begun, y.desk.store) ∧
        y.Safe Store.Collects (Store.Checked policy.flatten begun) := by
  obtain ⟨hothers, rfl | ⟨hwork, hmoves⟩⟩ :=
    hstep.cases (fun _ => .refl) Filing.does h.others
  · rcases h.work with hstart | ⟨now, hbegin⟩ | ⟨result, hdone⟩
    -- the clock is read first, and what time it is then is what the item begins at
    · have hworked : x.worked = ⟨x.desk, Procedure.store (Store.begin id x.desk.clock) >>=
          remainder policy id, x.others⟩ := by
        rw [Scene.worked, hstart, processItem_eq]
        rfl
      rw [hworked]
      exact .inl ⟨h.reached, h.opened, h.others, .inr (.inl ⟨_, rfl⟩)⟩
    · rw [Scene.worked, hbegin]
      cases hop : Store.begin id now x.desk.store with
      | error fault =>
        rw [advance_store_error hop]
        exact .inl ⟨h.reached, h.opened, h.others, .inr (.inr ⟨_, rfl⟩)⟩
      | ok result =>
        obtain ⟨started, s⟩ := result
        rw [advance_store_ok hop]
        cases started with
        | none =>
          obtain ⟨i, -, ⟨-, hsome, -⟩ | ⟨-, -, rfl⟩⟩ := Store.begin_ok hop
          · cases hsome
          · exact .inl ⟨h.reached, h.opened, h.others, .inr (.inr ⟨_, rfl⟩)⟩
        | some begun =>
          have hinhand := Store.InHand.of_begin h.reached hop
          exact .inr ⟨now, begun, hop,
            ⟨s, .refl, remainder_meets hinhand (begin_some hop).2⟩, h.others, hinhand.checked⟩
    · rw [Scene.worked, hdone]
      exact .inl ⟨h.reached, h.opened, h.others, .inr (.inr ⟨result, rfl⟩)⟩
  · exact .inl ⟨hmoves.reached h.reached, h.opened.collects hmoves, hothers, hwork ▸ h.work⟩

/-- An item that was not completed and is now was begun in between, and what it was
begun with can be loaded. -/
theorem begun_of_completed (h : d.store.Reached) (hopen : d.store.Open id)
    {e : Scene (Option Item)}
    (hon : Scene.LeadsTo Filing.procedure (.alone d (processItem policy id)) e) :
    Waiting policy id e ∨ ∃ b b' now begun,
      Scene.LeadsTo Filing.procedure (.alone d (processItem policy id)) b ∧
      Scene.Step Filing.procedure b b' ∧
      Store.begin id now b.desk.store = .ok (some begun, b'.desk.store) ∧
      Scene.LeadsTo Filing.procedure b' e ∧
      b'.Safe Store.Collects (Store.Checked policy.flatten begun) := by
  induction hon with
  | refl => exact .inl ⟨h, hopen, nofun, .inl rfl⟩
  | tail hbefore hstep ih =>
    rcases ih with hwaiting | ⟨b, b', now, begun, hto, hbegins, hbegin, hsince, hsafe⟩
    · rcases hwaiting.step hstep with hstill | ⟨now, begun, hbegin, hsafe⟩
      · exact .inl hstill
      · exact .inr ⟨_, _, now, begun, hbefore, hstep, hbegin, .refl, hsafe⟩
    · exact .inr ⟨b, b', now, begun, hto, hbegins, hbegin, hsince.tail hstep, hsafe⟩

/-- An item that processing completed while others filed documents has the files
that it was begun with, each with a payload that makes a table, and those that came
since, none of which has a result. So all its files are extracted, and its tables
can be loaded, exactly if none came since it was begun. -/
theorem completed_loads_iff_none_late (h : d.store.Reached) (hopen : d.store.Open id)
    {e : Scene (Option Item)}
    (hon : Scene.LeadsTo Filing.procedure (.alone d (processItem policy id)) e) {i : Item}
    (hitem : e.desk.store.item? id = some i) (hcompleted : i.status = .completed) :
    ∃ b b' now begun late,
      Scene.LeadsTo Filing.procedure (.alone d (processItem policy id)) b ∧
      Scene.Step Filing.procedure b b' ∧
      Store.begin id now b.desk.store = .ok (some begun, b'.desk.store) ∧
      Scene.LeadsTo Filing.procedure b' e ∧
      i.files = begun.files ++ late ∧
      (∀ f ∈ begun.files, ∃ table, HasTable policy.flatten e.desk.store.results f table) ∧
      (∀ f ∈ late, ∀ r ∈ e.desk.store.results, r.fileId ≠ f.id) ∧
      (e.desk.store.Extracted i ↔ late = []) ∧
      ((∃ tables, (loadTables policy i).run e.desk = (.ok tables, e.desk)) ↔ late = []) := by
  rcases begun_of_completed h hopen hon with
    hwaiting | ⟨b, b', now, begun, hto, hbegins, hbegin, hsince, hsafe⟩
  · exact absurd hcompleted (hwaiting.opened i hitem)
  · have hend := hsafe.leadsTo Store.collects_gathers (fun _ _ => Store.Checked.collects)
      Filing.does hsince
    obtain ⟨late, j, hholds, hloads⟩ := hend.inv
    have hid : begun.id = id := (begin_some hbegin).1
    obtain rfl : i = j := by
      have hsame := hholds.item
      rw [hid, hitem, Option.some.injEq] at hsame
      exact hsame
    obtain ⟨tables, htables⟩ := hloads hcompleted
    have hbegun : ∀ f ∈ begun.files,
        ∃ table, HasTable policy.flatten e.desk.store.results f table := fun f hf =>
      (ofResults_hasTable htables f hf).imp fun _ => HasTable.recorded
    have hnone : (∀ f ∈ i.files, ∃ r ∈ e.desk.store.results, r.fileId = f.id) → late = [] := by
      intro hall
      refine List.eq_nil_iff_forall_not_mem.mpr fun f hf => ?_
      obtain ⟨r, hr, hfile⟩ := hall f (by rw [hholds.files]; simp [hf])
      exact hholds.bare f hf r hr hfile
    refine ⟨b, b', now, begun, late, hto, hbegins, hbegin, hsince, hholds.files, hbegun,
      hholds.bare, ⟨fun hextracted => hnone fun f hf => ?_, ?_⟩, ⟨?_, ?_⟩⟩
    · obtain ⟨r, hr, hfile, -⟩ := hextracted f hf
      exact ⟨r, hr, hfile⟩
    · rintro rfl f hf
      rw [hholds.files, List.append_nil] at hf
      obtain ⟨-, r, hr, hfile, raw, hraw, -⟩ := hbegun f hf
      exact ⟨r, hr, hfile, raw, hraw⟩
    · rintro ⟨loaded, hloaded⟩
      rw [loadTables_run, Prod.mk.injEq] at hloaded
      refine hnone fun f hf => ?_
      obtain ⟨table, htable⟩ := ofResults_hasTable hloaded.1 f hf
      obtain ⟨r, hr, hfile, -⟩ := htable.recorded
      exact ⟨r, hr, hfile⟩
    · rintro rfl
      have hfiles := hholds.files
      rw [List.append_nil] at hfiles
      obtain ⟨-, hiid⟩ := Store.item?_mem hitem
      refine ⟨tables, ?_⟩
      rw [loadTables_run, hiid, ← hid, ofResults_congr _ (hiid.trans hid.symm) hfiles, htables]

/-! An item with one file, and another caller who has a second one. -/

private def samePolicy : Policy :=
  ⟨.standard, .tolerant, ⟨"b"⟩, fun _ _ _ => .ok "\x7b\"id\":\"7\"\x7d", false⟩

private def sentScan : Item :=
  { Item.create "i" "o" "acme" "invoice" "scan" ⟨0, 0⟩ with
    files := [⟨"f", "i", .primary, "scan.json", 0, "a", none⟩] }

private def sendingCalls : List Store.Call :=
  [.createOrder "o" none, .setMappingKeys "o" ["id"], .addItem sentScan, .submit "o"]

private def scanDesk : Desk := { Desk.empty with
  disk := ⟨[["b"]], [(["b", "a"], [])]⟩
  store := sendingCalls.foldl Store.Call.after Store.empty }

private def secondFile : Filing := .attach ⟨"g", "i", .attachment, "more.json", 0, "a", none⟩

private def tooLate : List (Scene.Move Filing) :=
  [.work, .work, .join secondFile, .other 0] ++ List.replicate 12 .work

private def afterwards : List (Scene.Move Filing) :=
  List.replicate 12 .work ++ [.join secondFile, .other 0]

private def sceneAfter (moves : List (Scene.Move Filing)) : Scene (Option Item) :=
  (Scene.alone scanDesk (processItem samePolicy "i")).played Filing.procedure moves

private def scanAfter (moves : List (Scene.Move Filing)) : Item :=
  ((sceneAfter moves).desk.store.item? "i").getD sentScan

/-- The only file is extracted, so that the tables can be loaded. -/
theorem completed_loads_iff_none_late_refused : ∃ (e : Scene (Option Item)) (i : Item),
    scanDesk.store.Reached ∧ scanDesk.store.Open "i" ∧
    Scene.LeadsTo Filing.procedure (.alone scanDesk (processItem samePolicy "i")) e ∧
    e.desk.store.item? "i" = some i ∧ i.status = .completed ∧ e.desk.store.Extracted i ∧
    ∃ tables, (loadTables samePolicy i).run e.desk = (.ok tables, e.desk) := by
  have hreached : scanDesk.store.Reached := Store.Reached.empty.calls sendingCalls
  have hopen : scanDesk.store.Open "i" := by
    intro i hi
    have hfound : scanDesk.store.item? "i" = some sentScan := by decide +kernel
    rw [hfound, Option.some.injEq] at hi
    exact hi ▸ nofun
  have hon := Scene.leadsTo_played Filing.procedure
    (Scene.alone scanDesk (processItem samePolicy "i")) afterwards
  have hitem : (sceneAfter afterwards).desk.store.item? "i" = some (scanAfter afterwards) := by
    decide +kernel
  have hcompleted : (scanAfter afterwards).status = .completed := by decide +kernel
  have hextracted : (sceneAfter afterwards).desk.store.Extracted (scanAfter afterwards) := by
    have hfiles : (scanAfter afterwards).files = sentScan.files := by decide +kernel
    have hresults : (sceneAfter afterwards).desk.store.results =
        [⟨"f", "i", .payload "\x7b\"id\":\"7\"\x7d"⟩] := by
      decide +kernel
    intro f hf
    rw [hfiles] at hf
    rw [hresults]
    obtain rfl := List.mem_singleton.mp hf
    exact ⟨_, List.mem_singleton_self _, rfl, _, rfl⟩
  obtain ⟨-, -, -, -, late, -, -, -, -, -, -, -, hall, hloads⟩ :=
    completed_loads_iff_none_late hreached hopen hon hitem hcompleted
  exact ⟨_, _, hreached, hopen, hon, hitem, hcompleted, hextracted,
    hloads.mpr (hall.mp hextracted)⟩

/-- A file that comes once the item was begun is not extracted. The item is completed
all the same, its order awaits a merge, and the merge fails for want of a result. -/
theorem exists_completed_unextracted : ∃ (d : Desk) (e : Scene (Option Item)) (i : Item),
    d.store.Reached ∧
    Scene.LeadsTo Filing.procedure (.alone d (processItem samePolicy "i")) e ∧
    e.desk.store.item? "i" = some i ∧ i.status = .completed ∧ ¬ e.desk.store.Extracted i ∧
    ((runMerge samePolicy "o").run e.desk).1 =
      .error (.order (.missingResult "i" "more.json")) := by
  refine ⟨scanDesk, sceneAfter tooLate, scanAfter tooLate,
    Store.Reached.empty.calls sendingCalls, Scene.leadsTo_played _ _ _, ?_, ?_, ?_, ?_⟩
  · decide +kernel
  · decide +kernel
  · have hlate : ∃ f ∈ (scanAfter tooLate).files, f.id = "g" := by decide +kernel
    have hresults : (sceneAfter tooLate).desk.store.results.all (·.fileId != "g") = true := by
      decide +kernel
    obtain ⟨f, hf, hid⟩ := hlate
    intro hextracted
    obtain ⟨r, hr, hfile, -⟩ := hextracted f hf
    have hother := List.all_eq_true.mp hresults r hr
    simp [hfile, hid] at hother
  · decide +kernel

end Service

end Collate
