import Collate.Proofs.Store.Balance

/-!
Runs of operations on a store that starts empty. The caller keeps copies of
items, makes new ones with the steps that items have and hands copies over in
any order, however old they are. A run keeps all counters exact if and only if
no retry is added as a new item and no retry is handed over that is final
already; in such a run no slot is ever released that is not counted.
-/

namespace Collate.Store

inductive Call where
  | createOrder (id : String) (name : Option String)
  | addItem (item : Item)
  | attachFile (file : FileRef)
  | setMappingKeys (id : String) (keys : List String)
  | setMappingFile (id reference : String)
  | submit (id : String)
  | begin (id : String) (now : Time.Timestamp)
  | putResult (result : ExtractionResult)
  | resolve (held : Item)
  | moveOrder (id : String) (source target : OrderStatus)
  | rollUp (snapshot : Order) (target : OrderStatus)
  | noteError (id : String) (error : Option String)
  | retry (next : Item)
  | saveMerged (id : String) (table : Merged)
  | setReportPaths (id : String) (paths : List String)
  | saveTemplate (template : Template)
  | saveBinding (binding : Binding)

namespace Call

def perform (s : Store) : Call → Except StoreFault Store
  | createOrder id name => (Store.createOrder (Order.create id name) s).map (·.2)
  | addItem item => (Store.addItem item s).map (·.2)
  | attachFile file => (Store.attachFile file s).map (·.2)
  | setMappingKeys id keys => (Store.setMappingKeys id keys s).map (·.2)
  | setMappingFile id reference => (Store.setMappingFile id reference s).map (·.2)
  | submit id => (Store.submit id s).map (·.2)
  | begin id now => (Store.begin id now s).map (·.2)
  | putResult result => (Store.putResult result s).map (·.2)
  | resolve held => (Store.resolve held s).map (·.2)
  | moveOrder id source target => (Store.moveOrder id source target s).map (·.2)
  | rollUp snapshot target => (Store.rollUp snapshot target s).map (·.2)
  | noteError id error => (Store.noteError id error s).map (·.2)
  | retry next => (Store.retry next s).map (·.2)
  | saveMerged id table => (Store.saveMerged id table s).map (·.2)
  | setReportPaths id paths => (Store.setReportPaths id paths s).map (·.2)
  | saveTemplate template => (Store.saveTemplate template s).map (·.2)
  | saveBinding binding => (Store.saveBinding binding s).map (·.2)

/-- The store after a call. A refused call leaves it as it was. -/
def after (s : Store) (c : Call) : Store :=
  match c.perform s with
  | .ok s' => s'
  | .error _ => s

def Accepted (s : Store) (c : Call) : Prop := ∃ s', c.perform s = .ok s'

def handed? : Call → Option Item
  | addItem item => some item
  | resolve held => some held
  | retry next => some next
  | _ => none

/-- An item that is added tries no other again, and a retry is not final. -/
def Sound : Call → Prop
  | addItem item => item.retryOf = none
  | retry next => next.status.isFinal = false
  | _ => True

/-- A retry that gets as far as releasing a slot finds one to release. -/
def FindsSlot (s : Store) : Call → Prop
  | retry next => ∀ failedId failed o, next.retryOf = some failedId →
      s.item? failedId = some failed → failed.status = .failed →
      s.isRetried failedId = false → s.order? failed.orderId = some o → 0 < o.failed
  | _ => True

end Call

/-- A store and the copies of items that its caller has. -/
structure Bench where
  store : Store
  held : List Item

/-- How the caller comes by one more copy: a new item under a new id, a step of
an item at hand, a retry under a new id, or a look at the store. -/
inductive Bench.Makes (b : Bench) : Item → Prop
  | create (id order company documentType name : String) (now : Time.Timestamp)
      (hnew : id ∉ b.held.map (·.id)) :
      b.Makes (Item.create id order company documentType name now)
  | withFile {item next : Item} {file : FileRef} (h : item ∈ b.held)
      (hok : item.withFile file = .ok next) : b.Makes next
  | start {item next : Item} {now : Time.Timestamp} (h : item ∈ b.held)
      (hok : item.start now = .ok next) : b.Makes next
  | complete {item next : Item} {now : Time.Timestamp} (h : item ∈ b.held)
      (hok : item.complete now = .ok next) : b.Makes next
  | fail {item next : Item} {error : String} {now : Time.Timestamp} (h : item ∈ b.held)
      (hok : item.fail error now = .ok next) : b.Makes next
  | retryFrom {item next : Item} {idAt : Nat → String} {now : Time.Timestamp} (h : item ∈ b.held)
      (hnew : idAt 0 ∉ b.held.map (·.id)) (hok : item.retryFrom idAt now = .ok next) :
      b.Makes next
  | read {item : Item} (h : item ∈ b.store.items) : b.Makes item

/-- Runs from an empty store, with the calls made so far and the store that each
of them met. -/
inductive Run : Bench → List (Store × Call) → Prop
  | start : Run ⟨Store.empty, []⟩ []
  | make {b : Bench} {past : List (Store × Call)} {item : Item} (h : Run b past)
      (hmakes : b.Makes item) : Run { b with held := item :: b.held } past
  | call {b : Bench} {past : List (Store × Call)} (c : Call) (h : Run b past)
      (hheld : ∀ item, c.handed? = some item → item ∈ b.held) :
      Run { b with store := c.after b.store } (past ++ [(b.store, c)])

/-! Copies of an item. -/

/-- Copies of one item: they agree on the order and on what is tried again. -/
def SamePlace (i j : Item) : Prop :=
  i.id = j.id ∧ i.orderId = j.orderId ∧ i.retryOf = j.retryOf

/-- What is known of copies that are made step by step. -/
structure Bench.Kept (b : Bench) : Prop where
  same : ∀ i ∈ b.held, ∀ j ∈ b.held, i.id = j.id → SamePlace i j
  stored : ∀ i ∈ b.store.items, ∃ j ∈ b.held, SamePlace i j
  retries : ∀ i ∈ b.held, ∀ failed, i.retryOf = some failed →
    failed ≠ i.id ∧ ∃ j ∈ b.held, j.id = failed ∧ j.orderId = i.orderId

/-- What an operation relies on of a copy that it is handed. -/
structure Fitting (s : Store) (item : Item) : Prop where
  same_order : ∀ i ∈ s.items, i.id = item.id → i.orderId = item.orderId
  retry_order : ∀ i ∈ s.items, item.retryOf = some i.id → i.orderId = item.orderId
  other : item.retryOf ≠ some item.id

theorem Bench.Kept.fitting {b : Bench} (h : b.Kept) {item : Item} (hitem : item ∈ b.held) :
    Fitting b.store item := by
  refine ⟨?_, ?_, ?_⟩
  · intro i hi hid
    obtain ⟨j, hj, hji, horder, -⟩ := h.stored i hi
    exact horder.trans (h.same j hj item hitem (hji.symm.trans hid)).2.1
  · intro i hi hretry
    obtain ⟨j, hj, hji, horder, -⟩ := h.stored i hi
    obtain ⟨-, k, hk, hki, hkorder⟩ := h.retries item hitem i.id hretry
    exact (horder.trans (h.same j hj k hk (hji.symm.trans hki.symm)).2.1).trans hkorder
  · intro hretry
    exact (h.retries item hitem item.id hretry).1 rfl

/-- A further copy of an item at hand. -/
theorem Bench.Kept.copy {b : Bench} (h : b.Kept) {i item : Item} (hi : i ∈ b.held)
    (hsame : SamePlace item i) : Bench.Kept { b with held := item :: b.held } := by
  obtain ⟨hid, horder, hretry⟩ := hsame
  have hitem : ∀ j ∈ b.held, item.id = j.id → SamePlace item j := by
    intro j hj hitem
    obtain ⟨h1, h2, h3⟩ := h.same i hi j hj (hid.symm.trans hitem)
    exact ⟨hitem, horder.trans h2, hretry.trans h3⟩
  refine ⟨?_, ?_, ?_⟩
  · intro j hj k hk hjk
    rcases List.mem_cons.mp hj with rfl | hj'
    · rcases List.mem_cons.mp hk with rfl | hk'
      · exact ⟨rfl, rfl, rfl⟩
      · exact hitem k hk' hjk
    · rcases List.mem_cons.mp hk with rfl | hk'
      · obtain ⟨h1, h2, h3⟩ := hitem j hj' hjk.symm
        exact ⟨h1.symm, h2.symm, h3.symm⟩
      · exact h.same j hj' k hk' hjk
  · intro j hj
    obtain ⟨k, hk, hjk⟩ := h.stored j hj
    exact ⟨k, List.mem_cons_of_mem _ hk, hjk⟩
  · have hold : ∀ j ∈ b.held, ∀ failed, j.retryOf = some failed →
        failed ≠ j.id ∧ ∃ k ∈ item :: b.held, k.id = failed ∧ k.orderId = j.orderId := by
      intro j hj failed hfailed
      obtain ⟨hne, k, hk, hrest⟩ := h.retries j hj failed hfailed
      exact ⟨hne, k, List.mem_cons_of_mem _ hk, hrest⟩
    intro j hj failed hfailed
    rcases List.mem_cons.mp hj with rfl | hj
    · rw [hid, horder]
      exact hold i hi failed (hretry ▸ hfailed)
    · exact hold j hj failed hfailed

/-- An item under a new id, which may try an item at hand again. -/
theorem Bench.Kept.new {b : Bench} (h : b.Kept) {item : Item}
    (hnew : item.id ∉ b.held.map (·.id))
    (hretry : ∀ failed, item.retryOf = some failed →
      ∃ j ∈ b.held, j.id = failed ∧ j.orderId = item.orderId) :
    Bench.Kept { b with held := item :: b.held } := by
  have hne : ∀ j ∈ b.held, j.id ≠ item.id := fun j hj heq =>
    hnew (heq ▸ List.mem_map_of_mem hj)
  refine ⟨?_, ?_, ?_⟩
  · intro j hj k hk hjk
    rcases List.mem_cons.mp hj with rfl | hj'
    · rcases List.mem_cons.mp hk with rfl | hk'
      · exact ⟨rfl, rfl, rfl⟩
      · exact absurd hjk.symm (hne k hk')
    · rcases List.mem_cons.mp hk with rfl | hk'
      · exact absurd hjk (hne j hj')
      · exact h.same j hj' k hk' hjk
  · intro j hj
    obtain ⟨k, hk, hjk⟩ := h.stored j hj
    exact ⟨k, List.mem_cons_of_mem _ hk, hjk⟩
  · intro j hj failed hfailed
    rcases List.mem_cons.mp hj with rfl | hj
    · obtain ⟨k, hk, hkid, horder⟩ := hretry failed hfailed
      exact ⟨hkid ▸ hne k hk, k, List.mem_cons_of_mem _ hk, hkid, horder⟩
    · obtain ⟨hother, k, hk, hrest⟩ := h.retries j hj failed hfailed
      exact ⟨hother, k, List.mem_cons_of_mem _ hk, hrest⟩

theorem Bench.Kept.make {b : Bench} (h : b.Kept) {item : Item} (hmakes : b.Makes item) :
    Bench.Kept { b with held := item :: b.held } := by
  cases hmakes with
  | create id order company documentType name now hnew =>
    exact h.new hnew (by simp [Item.create])
  | withFile hi hok =>
    unfold Item.withFile at hok
    split at hok
    · simp at hok
    · cases hok
      exact h.copy hi ⟨rfl, rfl, rfl⟩
  | start hi hok =>
    unfold Item.start at hok
    split at hok
    · cases hok
      exact h.copy hi ⟨rfl, rfl, rfl⟩
    · simp [Item.refuseStep] at hok
  | complete hi hok =>
    unfold Item.complete at hok
    split at hok
    · cases hok
      exact h.copy hi ⟨rfl, rfl, rfl⟩
    · simp [Item.refuseStep] at hok
  | fail hi hok =>
    unfold Item.fail at hok
    split at hok
    · cases hok
      exact h.copy hi ⟨rfl, rfl, rfl⟩
    · simp [Item.refuseStep] at hok
  | @retryFrom failed next idAt now hi hnew hok =>
    unfold Item.retryFrom at hok
    split at hok
    · cases hok
      refine h.new hnew ?_
      intro failedId hfailed
      cases hfailed
      exact ⟨failed, hi, rfl, rfl⟩
    · simp [Item.refuseStep] at hok
  | read hi =>
    obtain ⟨j, hj, hsame⟩ := h.stored item hi
    exact h.copy hj hsame

/-! One call. -/

theorem map_snd_eq_ok {α : Type} {x : Except StoreFault (α × Store)} {s' : Store} :
    x.map (·.2) = .ok s' ↔ ∃ a, x = .ok (a, s') := by
  cases x with
  | error e => simp [Except.map]
  | ok r => simp [Except.map, Prod.ext_iff]

theorem samePlace_of_updateItem {s : Store} {id : String} {change : Item → Item} {i : Item}
    (hi : i ∈ (s.updateItem id change).items) (hkeeps : KeepsPlace change) :
    ∃ j ∈ s.items, SamePlace i j := by
  obtain ⟨j, hj, ⟨-, rfl⟩ | ⟨-, rfl⟩⟩ := updateItem_cases hi
  · exact ⟨j, hj, hkeeps j⟩
  · exact ⟨_, hj, rfl, rfl, rfl⟩

/-- After a call every item is a copy of one that was there or the one that was
handed over. -/
theorem Call.perform_items {s s' : Store} {c : Call} (hok : c.perform s = .ok s') :
    ∀ i ∈ s'.items, (∃ j ∈ s.items, SamePlace i j) ∨ c.handed? = some i := by
  have hkept : s'.items = s.items →
      ∀ i ∈ s'.items, (∃ j ∈ s.items, SamePlace i j) ∨ c.handed? = some i := by
    intro hitems i hi
    exact Or.inl ⟨i, hitems ▸ hi, rfl, rfl, rfl⟩
  have happended : ∀ item, c.handed? = some item → s'.items = s.items ++ [item] →
      ∀ i ∈ s'.items, (∃ j ∈ s.items, SamePlace i j) ∨ c.handed? = some i := by
    intro item hhanded hitems i hi
    rw [hitems, List.mem_append, List.mem_singleton] at hi
    rcases hi with hold | rfl
    · exact Or.inl ⟨i, hold, rfl, rfl, rfl⟩
    · exact Or.inr hhanded
  cases c with
  | createOrder id name =>
    obtain ⟨_, hok⟩ := map_snd_eq_ok.mp hok
    obtain ⟨-, rfl⟩ := createOrder_ok hok
    exact hkept rfl
  | addItem item =>
    obtain ⟨_, hok⟩ := map_snd_eq_ok.mp hok
    obtain ⟨-, -, -, -, -, rfl⟩ := addItem_ok hok
    exact happended item rfl rfl
  | attachFile file =>
    obtain ⟨_, hok⟩ := map_snd_eq_ok.mp hok
    obtain ⟨-, -, -, -, -, -, -, rfl⟩ := attachFile_ok hok
    intro i hi
    exact Or.inl (samePlace_of_updateItem hi fun i => ⟨rfl, rfl, rfl⟩)
  | setMappingKeys id keys =>
    obtain ⟨_, hok⟩ := map_snd_eq_ok.mp hok
    exact hkept (by rw [(setMappingKeys_ok hok).2]; rfl)
  | setMappingFile id reference =>
    obtain ⟨_, hok⟩ := map_snd_eq_ok.mp hok
    exact hkept (by rw [setMappingFile_ok hok]; rfl)
  | submit id =>
    obtain ⟨_, hok⟩ := map_snd_eq_ok.mp hok
    obtain ⟨-, -, -, -, -, rfl⟩ := submit_ok hok
    exact hkept rfl
  | begin id now =>
    obtain ⟨_, hok⟩ := map_snd_eq_ok.mp hok
    obtain ⟨-, -, ⟨-, -, rfl⟩ | ⟨-, -, rfl⟩⟩ := begin_ok hok
    · intro i hi
      exact Or.inl (samePlace_of_updateItem hi fun i => ⟨rfl, rfl, rfl⟩)
    · exact hkept rfl
  | putResult result =>
    obtain ⟨_, hok⟩ := map_snd_eq_ok.mp hok
    exact hkept (putResult_ok hok).2.1
  | resolve held =>
    obtain ⟨_, hok⟩ := map_snd_eq_ok.mp hok
    obtain ⟨-, -, rfl, -⟩ := resolve_ok hok
    intro i hi
    rw [updateOrder_items] at hi
    exact Or.inl (samePlace_of_updateItem hi fun i => ⟨rfl, rfl, rfl⟩)
  | moveOrder id source target =>
    obtain ⟨_, hok⟩ := map_snd_eq_ok.mp hok
    obtain ⟨-, ⟨-, -, -, -, rfl⟩ | ⟨-, rfl⟩⟩ := moveOrder_ok hok
    · exact hkept rfl
    · exact hkept rfl
  | rollUp snapshot target =>
    obtain ⟨_, hok⟩ := map_snd_eq_ok.mp hok
    obtain ⟨-, -, ⟨-, -, -, -, rfl⟩ | ⟨-, rfl⟩⟩ := rollUp_ok hok
    · exact hkept rfl
    · exact hkept rfl
  | noteError id error =>
    obtain ⟨_, hok⟩ := (map_snd_eq_ok (x := Store.noteError id error s)).mp hok
    exact hkept (by rw [noteError_ok hok]; rfl)
  | retry next =>
    obtain ⟨_, hok⟩ := map_snd_eq_ok.mp hok
    obtain ⟨failedId, failed, before, -, -, -, -, -, -, -, hs, -⟩ := retry_ok hok
    exact happended next rfl (by rw [hs])
  | saveMerged id table =>
    obtain ⟨_, hok⟩ := map_snd_eq_ok.mp hok
    obtain ⟨-, rfl⟩ := saveMerged_ok hok
    exact hkept rfl
  | setReportPaths id paths =>
    obtain ⟨_, hok⟩ := (map_snd_eq_ok (x := Store.setReportPaths id paths s)).mp hok
    exact hkept (by rw [setReportPaths_ok hok]; rfl)
  | saveTemplate template =>
    obtain ⟨_, hok⟩ := map_snd_eq_ok.mp hok
    exact hkept (saveTemplate_ok hok).2.1
  | saveBinding binding =>
    obtain ⟨_, hok⟩ := map_snd_eq_ok.mp hok
    exact hkept (saveBinding_ok hok).2.1

/-- A sound call keeps the balance. -/
theorem Balanced.perform {s s' : Store} (h : s.Balanced) {c : Call}
    (hfitting : ∀ item, c.handed? = some item → Fitting s item) (hsound : c.Sound)
    (hok : c.perform s = .ok s') : s'.Balanced := by
  cases c with
  | createOrder id name =>
    obtain ⟨_, hok⟩ := map_snd_eq_ok.mp hok
    exact h.createOrder hok
  | addItem item =>
    obtain ⟨_, hok⟩ := map_snd_eq_ok.mp hok
    exact h.addItem hok hsound
  | attachFile file =>
    obtain ⟨_, hok⟩ := map_snd_eq_ok.mp hok
    exact h.attachFile hok
  | setMappingKeys id keys =>
    obtain ⟨_, hok⟩ := map_snd_eq_ok.mp hok
    exact h.setMappingKeys hok
  | setMappingFile id reference =>
    obtain ⟨_, hok⟩ := map_snd_eq_ok.mp hok
    exact h.setMappingFile hok
  | submit id =>
    obtain ⟨_, hok⟩ := map_snd_eq_ok.mp hok
    exact h.submit hok
  | begin id now =>
    obtain ⟨_, hok⟩ := map_snd_eq_ok.mp hok
    exact h.begin hok
  | putResult result =>
    obtain ⟨_, hok⟩ := map_snd_eq_ok.mp hok
    obtain ⟨horders, hitems, -⟩ := putResult_ok hok
    exact h.of_eq horders hitems
  | resolve held =>
    obtain ⟨_, hok⟩ := map_snd_eq_ok.mp hok
    exact h.resolve hok (hfitting held rfl).same_order
  | moveOrder id source target =>
    obtain ⟨_, hok⟩ := map_snd_eq_ok.mp hok
    exact h.moveOrder hok
  | rollUp snapshot target =>
    obtain ⟨_, hok⟩ := map_snd_eq_ok.mp hok
    exact h.rollUp hok
  | noteError id error =>
    obtain ⟨_, hok⟩ := (map_snd_eq_ok (x := Store.noteError id error s)).mp hok
    rw [noteError_ok hok]
    exact h.updateOrder (fun _ => rfl) fun _ => ⟨rfl, rfl, rfl⟩
  | retry next =>
    obtain ⟨_, hok⟩ := map_snd_eq_ok.mp hok
    exact h.retry hok (hfitting next rfl).retry_order hsound
  | saveMerged id table =>
    obtain ⟨_, hok⟩ := map_snd_eq_ok.mp hok
    obtain ⟨-, rfl⟩ := saveMerged_ok hok
    exact h.of_eq rfl rfl
  | setReportPaths id paths =>
    obtain ⟨_, hok⟩ := (map_snd_eq_ok (x := Store.setReportPaths id paths s)).mp hok
    rw [setReportPaths_ok hok]
    exact h.updateOrder (fun _ => rfl) fun _ => ⟨rfl, rfl, rfl⟩
  | saveTemplate template =>
    obtain ⟨_, hok⟩ := map_snd_eq_ok.mp hok
    obtain ⟨horders, hitems, -⟩ := saveTemplate_ok hok
    exact h.of_eq horders hitems
  | saveBinding binding =>
    obtain ⟨_, hok⟩ := map_snd_eq_ok.mp hok
    obtain ⟨horders, hitems, -⟩ := saveBinding_ok hok
    exact h.of_eq horders hitems

/-- An unsound call that takes place leaves a counter that is off. -/
theorem Balanced.not_exact_of_unsound {s s' : Store} (h : s.Balanced) {c : Call}
    (hfitting : ∀ item, c.handed? = some item → Fitting s item) (hsound : ¬ c.Sound)
    (hok : c.perform s = .ok s') : ∃ o ∈ s'.orders, ¬ s'.Exact o := by
  cases c with
  | addItem item =>
    obtain ⟨_, hok⟩ := map_snd_eq_ok.mp hok
    have hfit := hfitting item rfl
    exact h.not_exact_of_retry_added hok hfit.retry_order hfit.other hsound
  | retry next =>
    obtain ⟨_, hok⟩ := map_snd_eq_ok.mp hok
    refine h.not_exact_of_final_retry hok (hfitting next rfl).retry_order ?_
    simpa [Call.Sound] using hsound
  | _ => exact absurd trivial hsound

theorem Balanced.findsSlot {s : Store} (h : s.Balanced) (c : Call) : c.FindsSlot s := by
  cases c with
  | retry next =>
    intro failedId failed o _ hfound hstatus hfree horder
    obtain ⟨hmem, rfl⟩ := item?_mem hfound
    obtain ⟨homem, hoid⟩ := order?_mem horder
    exact h.failed_pos homem hmem hoid.symm hstatus hfree
  | _ => trivial

/-! Runs. -/

theorem Bench.Kept.call {b : Bench} (h : b.Kept) {c : Call}
    (hheld : ∀ item, c.handed? = some item → item ∈ b.held) :
    Bench.Kept { b with store := c.after b.store } := by
  refine ⟨h.same, ?_, h.retries⟩
  intro i hi
  simp only [Call.after] at hi
  split at hi
  · rename_i s' hok
    rcases Call.perform_items hok i hi with ⟨j, hj, hij⟩ | hhanded
    · obtain ⟨k, hk, hjk⟩ := h.stored j hj
      exact ⟨k, hk, hij.1.trans hjk.1, hij.2.1.trans hjk.2.1, hij.2.2.trans hjk.2.2⟩
    · exact ⟨i, hheld i hhanded, rfl, rfl, rfl⟩
  · exact h.stored i hi

theorem Run.kept {b : Bench} {past : List (Store × Call)} (h : Run b past) : b.Kept := by
  induction h with
  | start =>
    refine ⟨?_, ?_, ?_⟩
    · simp
    · simp [Store.empty]
    · simp
  | make _ hmakes ih => exact ih.make hmakes
  | call c _ hheld ih => exact ih.call hheld

/-- What is promised of a store: the counters of every order are exact, and no
more items are resolved than there are. -/
def Counted (s : Store) : Prop :=
  ∀ o ∈ s.orders, s.Exact o ∧ o.completed + o.failed ≤ o.total

theorem Balanced.counted {s : Store} (h : s.Balanced) : s.Counted :=
  fun o ho => ⟨h.exact o ho, h.resolved_le ho⟩

/-- What is promised of a run: every store on the way and the last one are
counted, and every retry that releases a slot finds one. -/
def Faithful (past : List (Store × Call)) (last : Store) : Prop :=
  (∀ entry ∈ past, entry.1.Counted ∧ entry.2.FindsSlot entry.1) ∧ last.Counted

/-- Whether all calls that took place were sound. -/
def AllSound (past : List (Store × Call)) : Prop :=
  ∀ entry ∈ past, entry.2.Accepted entry.1 → entry.2.Sound

/-- As long as all calls are sound the store is balanced; the first that is not
leaves a counter that is off. -/
theorem Run.balanced_or_not {b : Bench} {past : List (Store × Call)} (h : Run b past) :
    (AllSound past ∧ b.store.Balanced ∧ ∀ entry ∈ past, entry.1.Balanced) ∨
      (¬ AllSound past ∧ ¬ Faithful past b.store) := by
  induction h with
  | start => exact Or.inl ⟨by simp [AllSound], empty_balanced, by simp⟩
  | make _ _ ih => exact ih
  | @call b past c hrun hheld ih =>
    have hfitting : ∀ item, c.handed? = some item → Fitting b.store item :=
      fun item hitem => hrun.kept.fitting (hheld item hitem)
    rcases ih with ⟨hsound, hbalanced, hpast⟩ | ⟨hunsound, hoff⟩
    · have hpast' : ∀ entry ∈ past ++ [(b.store, c)], entry.1.Balanced := by
        intro entry hentry
        rcases List.mem_append.mp hentry with hold | hnew
        · exact hpast entry hold
        · rw [List.mem_singleton.mp hnew]
          exact hbalanced
      cases hperform : c.perform b.store with
      | error fault =>
        have hafter : c.after b.store = b.store := by simp [Call.after, hperform]
        simp only [hafter]
        refine Or.inl ⟨?_, hbalanced, hpast'⟩
        intro entry hentry haccepted
        rcases List.mem_append.mp hentry with hold | hnew
        · exact hsound entry hold haccepted
        · rw [List.mem_singleton.mp hnew] at haccepted
          obtain ⟨s', hs'⟩ := haccepted
          simp [hperform] at hs'
      | ok s' =>
        have hafter : c.after b.store = s' := by simp [Call.after, hperform]
        simp only [hafter]
        by_cases hcall : c.Sound
        · refine Or.inl ⟨?_, hbalanced.perform hfitting hcall hperform, hpast'⟩
          intro entry hentry haccepted
          rcases List.mem_append.mp hentry with hold | hnew
          · exact hsound entry hold haccepted
          · rw [List.mem_singleton.mp hnew]
            exact hcall
        · obtain ⟨o, ho, hnot⟩ := hbalanced.not_exact_of_unsound hfitting hcall hperform
          refine Or.inr ⟨?_, ?_⟩
          · intro hall
            exact hcall (hall (b.store, c) (by simp) ⟨s', hperform⟩)
          · intro hfaithful
            exact hnot (hfaithful.2 o ho).1
    · refine Or.inr ⟨?_, ?_⟩
      · intro hall
        exact hunsound fun entry hentry => hall entry (List.mem_append_left _ hentry)
      · intro hfaithful
        have hlast := hfaithful.1 (b.store, c) (by simp)
        exact hoff ⟨fun entry hentry => hfaithful.1 entry (List.mem_append_left _ hentry), hlast.1⟩

/-- The counters of all orders are exact throughout a run, and no slot is
released that is not counted, exactly if no retry is added as a new item and
none is final when it is handed over. -/
theorem Run.faithful_iff {b : Bench} {past : List (Store × Call)} (h : Run b past) :
    Faithful past b.store ↔ AllSound past := by
  rcases h.balanced_or_not with ⟨hsound, hbalanced, hpast⟩ | ⟨hunsound, hoff⟩
  · refine ⟨fun _ => hsound, fun _ => ⟨?_, hbalanced.counted⟩⟩
    intro entry hentry
    exact ⟨(hpast entry hentry).counted, (hpast entry hentry).findsSlot entry.2⟩
  · exact ⟨fun hfaithful => absurd hfaithful hoff, fun hall => absurd hall hunsound⟩

/-! A failed item and its next try. -/

private def firstTry : Item := Item.create "i" "o" "acme" "invoice" "scan" ⟨0, 0⟩

private def firstStarted : Item :=
  { firstTry with status := .processing, startedAt := some ⟨1, 0⟩ }

private def firstFailed : Item :=
  { firstStarted with status := .failed, endedAt := some ⟨2, 0⟩, error := some "blank" }

private def nextTry : Item :=
  { Item.create "j" "o" "acme" "invoice" "scan" ⟨3, 0⟩ with retryOf := some "i" }

/-- An order in processing whose only item has failed, and a retry at hand. -/
private theorem run_firstFailed : ∃ past,
    Run ⟨{ Store.empty with
        orders := [{ Order.create "o" none with status := .processing, total := 1, failed := 1 }]
        items := [firstFailed] }, [nextTry, firstFailed, firstStarted, firstTry]⟩ past ∧
      AllSound past := by
  have hstart : firstTry.start ⟨1, 0⟩ = .ok firstStarted := rfl
  have hfail : firstStarted.fail "blank" ⟨2, 0⟩ = .ok firstFailed := rfl
  have hretry : firstFailed.retryFrom (fun _ => "j") ⟨3, 0⟩ = .ok nextTry := rfl
  have h := Run.start
  have h := h.call (.createOrder "o" none) (by simp [Call.handed?])
  have h := h.make (.create "i" "o" "acme" "invoice" "scan" ⟨0, 0⟩ (by simp))
  have h := h.call (.addItem firstTry) (by simp [Call.handed?, firstTry])
  have h := h.call (.moveOrder "o" .draft .processing) (by simp [Call.handed?])
  have h := h.call (.begin "i" ⟨1, 0⟩) (by simp [Call.handed?])
  have h := h.make (.start (by simp [firstTry]) hstart)
  have h := h.make (.fail (by simp) hfail)
  have h := h.call (.resolve firstFailed) (by simp [Call.handed?])
  have h := h.make (.retryFrom (by simp)
    (by simp [firstFailed, firstStarted, firstTry, Item.create]) hretry)
  refine ⟨_, h, ?_⟩
  simp [AllSound, Call.Sound, firstTry, Item.create]

/-- The next try of an item that failed has taken its slot. -/
theorem Run.faithful_retried : ∃ b past, Run b past ∧ b.store.items.length = 2 ∧
    b.store.orders.map (fun o => (o.total, o.completed, o.failed)) = [(1, 0, 0)] ∧
    Faithful past b.store := by
  obtain ⟨past, h, hsound⟩ := run_firstFailed
  have h := h.call (.retry nextTry) (by simp [Call.handed?])
  refine ⟨_, _, h, by decide, by decide, h.faithful_iff.mpr ?_⟩
  intro entry hentry haccepted
  rcases List.mem_append.mp hentry with hold | hnew
  · exact hsound entry hold haccepted
  · rw [List.mem_singleton.mp hnew]
    rfl

/-- A next try that the caller has carried through already takes the slot of
the failed item, but is in no counter. -/
theorem Run.exists_uncounted : ∃ b past, Run b past ∧ ¬ b.store.Counted := by
  let begun : Item := { nextTry with status := .processing, startedAt := some ⟨4, 0⟩ }
  let done : Item := { begun with status := .completed, endedAt := some ⟨5, 0⟩ }
  have hstart : nextTry.start ⟨4, 0⟩ = .ok begun := rfl
  have hcomplete : begun.complete ⟨5, 0⟩ = .ok done := rfl
  obtain ⟨past, h, -⟩ := run_firstFailed
  have h := h.make (.start (by simp) hstart)
  have h := h.make (.complete (by simp) hcomplete)
  have h := h.call (.retry done) (by simp [Call.handed?])
  refine ⟨_, _, h, ?_⟩
  intro hcounted
  have hexact := (hcounted _ (List.mem_singleton.mpr rfl)).1.completed
  revert hexact
  decide

end Collate.Store
