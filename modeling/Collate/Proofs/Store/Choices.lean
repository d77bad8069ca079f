import Collate.Proofs.Store.Change
import Collate.Proofs.Store.Tidy
import Collate.Proofs.Text.Blank

/-!
What is chosen while an order is drafted: its join keys, its mapping file and the items it
is to have. Operations change these of a drafted order only, and keys and mapping file only
as the operation says. Of an order that was sent off they stay, since it does not become a
draft again and the items that are put in later all try others again.
-/

namespace Collate

/-! Join keys. -/

/-- One to three different texts without blanks at their ends, none of them empty. -/
structure ProperKeys (keys : List String) : Prop where
  count : 1 ≤ keys.length ∧ keys.length ≤ 3
  distinct : keys.Nodup
  filled : ∀ key ∈ keys, Text.isBlankText key = false
  trimmed : ∀ key ∈ keys, Text.trim key = key

/-- Keys that pass the check are the given ones trimmed, in their order. -/
theorem checkKeys_ok {given keys : List String} (h : checkKeys given = .ok keys) :
    keys = given.map Text.trim ∧ ProperKeys keys := by
  simp only [checkKeys] at h
  split at h
  · cases h
  · rename_i hcount
    split at h
    · cases h
    · rename_i hblank
      split at h
      · cases h
      · rename_i honce
        cases h
        have htrimmed : ∀ key ∈ given.map Text.trim, Text.trim key = key := by
          intro key hkey
          obtain ⟨text, -, rfl⟩ := List.mem_map.mp hkey
          exact Text.trim_trim text
        refine ⟨rfl, ?_, (repeated?_eq_none.mp honce).1, ?_, htrimmed⟩
        · rw [Bool.or_eq_true, List.isEmpty_iff, decide_eq_true_eq, not_or, Nat.not_lt] at hcount
          exact ⟨List.length_pos_of_ne_nil hcount.1, hcount.2⟩
        · intro key hkey
          have hfull : key.isEmpty = false := by
            rw [Bool.eq_false_iff]
            exact fun hempty => hblank (List.any_eq_true.mpr ⟨key, hkey, hempty⟩)
          rw [← hfull, ← Text.trim_isEmpty, htrimmed key hkey]

namespace Store

variable {s s' t : Store} {k : Call}

/-! Items that try no other again. -/

/-- The ids of the items of an order that try no other again. -/
def firstTries (s : Store) (order : String) : List String :=
  (s.items.filter fun i => i.orderId == order && i.retryOf == none).map (·.id)

theorem firstTries_of_items (hitems : s'.items = s.items) (order : String) :
    s'.firstTries order = s.firstTries order := by
  rw [firstTries, hitems, firstTries]

/-- An item of another order and one that tries another again do not count. -/
theorem firstTries_append {item : Item} (hitems : s'.items = s.items ++ [item]) {order : String}
    (hother : item.orderId ≠ order ∨ item.retryOf ≠ none) :
    s'.firstTries order = s.firstTries order := by
  have hnot : (item.orderId == order && item.retryOf == none) = false := by
    rw [Bool.and_eq_false_iff, beq_eq_false_iff_ne, beq_eq_false_iff_ne]
    exact hother
  simp only [firstTries, hitems, List.filter_append, List.filter_cons, hnot, List.filter_nil,
    Bool.false_eq_true, if_false, List.append_nil]

theorem firstTries_updateItem {id : String} {change : Item → Item} (hkeeps : KeepsPlace change)
    (hitems : s'.items = (s.updateItem id change).items) (order : String) :
    s'.firstTries order = s.firstTries order := by
  have hsame : KeepsPlace fun i : Item => if i.id == id then change i else i := by
    intro i
    dsimp only
    split
    · exact hkeeps i
    · exact ⟨rfl, rfl, rfl⟩
  simp only [firstTries, hitems, updateItem, List.filter_map, List.map_map, Function.comp_def,
    (hsame _).1, (hsame _).2.1, (hsame _).2.2]

/-! What one operation does. -/

/-- What an operation may do to an order. Only a drafted one gets other keys or another
mapping file. -/
structure Amends (k : Call) (o o' : Order) : Prop where
  sent : o.status ≠ .draft → o'.status ≠ .draft
  keys : o'.mappingKeys = o.mappingKeys ∨ o.status = .draft ∧
    ∃ keys, k = .setMappingKeys o.id keys ∧ o'.mappingKeys = some keys
  file : o'.mappingFile = o.mappingFile ∨ o.status = .draft ∧
    ∃ reference, k = .setMappingFile o.id reference ∧ o'.mappingFile = some reference

theorem Amends.same {o o' : Order} (hsent : o.status ≠ .draft → o'.status ≠ .draft)
    (hchosen : o'.mappingKeys = o.mappingKeys ∧ o'.mappingFile = o.mappingFile) :
    Amends k o o' := ⟨hsent, .inl hchosen.1, .inl hchosen.2⟩

/-- What an operation leaves of the choices of all orders. -/
structure Leaves (k : Call) (s s' : Store) : Prop where
  /-- Orders stay. -/
  orders : ∀ id o, s.order? id = some o → ∃ o', s'.order? id = some o' ∧ Amends k o o'
  /-- For a new order nothing was chosen yet. -/
  created : ∀ id o, s.order? id = none → s'.order? id = some o →
    o.mappingKeys = none ∧ o.mappingFile = none
  items : ∀ id o, s.order? id = some o → s'.firstTries id = s.firstTries id ∨ o.status = .draft

theorem Leaves.of_orders (horders : s'.orders = s.orders)
    (hitems : ∀ order, s'.firstTries order = s.firstTries order) : Leaves k s s' := by
  have hsame : ∀ id, s'.order? id = s.order? id := fun id => by rw [order?, horders, order?]
  refine ⟨fun id o ho => ⟨o, (hsame id).trans ho, .same (fun h => h) ⟨rfl, rfl⟩⟩, ?_,
    fun id o _ => .inl (hitems id)⟩
  intro id o hnone ho
  rw [hsame, hnone] at ho
  cases ho

/-- An operation that changes one order. -/
theorem Leaves.of_update {id : String} {change : Order → Order}
    (horders : s'.orders = (s.updateOrder id change).orders) (hid : ∀ o, (change o).id = o.id)
    (hchange : ∀ o, s.order? id = some o → Amends k o (change o))
    (hitems : ∀ order o, s.order? order = some o →
      s'.firstTries order = s.firstTries order ∨ o.status = .draft) : Leaves k s s' := by
  have hfound : ∀ other, s'.order? other =
      if other = id then (s.order? id).map change else s.order? other := by
    intro other
    rw [← order?_updateOrder hid, order?, horders, order?]
  refine ⟨?_, ?_, hitems⟩
  · intro other o ho
    by_cases hhere : other = id
    · subst hhere
      exact ⟨change o, by rw [hfound, if_pos rfl, ho]; rfl, hchange o ho⟩
    · exact ⟨o, by rw [hfound, if_neg hhere, ho], .same (fun h => h) ⟨rfl, rfl⟩⟩
  · intro other o hnone ho
    rw [hfound] at ho
    split at ho
    · rename_i hhere
      subst hhere
      rw [hnone] at ho
      cases ho
    · rw [hnone] at ho
      cases ho

/-- An operation that changes one order and leaves its choices alone. -/
theorem Leaves.of_touch {id : String} {change : Order → Order}
    (horders : s'.orders = (s.updateOrder id change).orders) (hid : ∀ o, (change o).id = o.id)
    (hsent : ∀ o, o.status ≠ .draft → (change o).status ≠ .draft)
    (hchosen : ∀ o, (change o).mappingKeys = o.mappingKeys ∧ (change o).mappingFile = o.mappingFile)
    (hitems : ∀ order o, s.order? order = some o →
      s'.firstTries order = s.firstTries order ∨ o.status = .draft) : Leaves k s s' :=
  .of_update horders hid (fun o _ => .same (hsent o) (hchosen o)) hitems

/-- A step to another status leaves the choices alone. -/
theorem leaves_status {id : String} {target : OrderStatus} (htarget : target ≠ .draft) :
    Leaves k s (s.updateOrder id fun o => { o with status := target }) :=
  .of_touch rfl (fun _ => rfl) (fun _ _ => htarget) (fun _ => ⟨rfl, rfl⟩)
    fun order _ _ => .inl (firstTries_of_items rfl order)

theorem leaves_createOrder {id : String} {name : Option String}
    (hok : createOrder (Order.create id name) s = .ok ((), s')) : Leaves k s s' := by
  obtain ⟨hnew, rfl⟩ := createOrder_ok hok
  refine ⟨?_, ?_, fun order _ _ => .inl (firstTries_of_items rfl order)⟩
  · intro other o ho
    refine ⟨o, ?_, .same (fun h => h) ⟨rfl, rfl⟩⟩
    rw [order?, List.find?_append, ← order?, ho, Option.some_or]
  · intro other o hnone ho
    rw [order?, List.find?_append, ← order?, hnone, Option.none_or] at ho
    rw [List.mem_singleton.mp (List.mem_of_find?_eq_some ho)]
    exact ⟨rfl, rfl⟩

theorem leaves_setMappingKeys {id : String} {keys : List String}
    (hok : setMappingKeys id keys s = .ok ((), s')) : Leaves (.setMappingKeys id keys) s s' := by
  obtain ⟨⟨found, hfound, hdraft⟩, rfl⟩ := setMappingKeys_ok hok
  refine .of_update rfl (fun _ => rfl) ?_ fun order _ _ => .inl (firstTries_of_items rfl order)
  intro o ho
  obtain rfl := Option.some.inj (hfound.symm.trans ho)
  exact ⟨fun h => h, .inr ⟨hdraft, keys, by rw [(order?_mem ho).2], rfl⟩, .inl rfl⟩

theorem setMappingFile_draft {id reference : String}
    (h : setMappingFile id reference s = .ok ((), s')) :
    ∃ o, s.order? id = some o ∧ o.status = .draft := by
  simp only [setMappingFile, Except.bind_eq_ok, liftFault_eq_ok, order_eq_ok,
    Order.require_eq_ok] at h
  obtain ⟨o, ho, u, hdraft, -⟩ := h
  exact ⟨o, ho, by simpa using hdraft⟩

theorem leaves_setMappingFile {id reference : String}
    (hok : setMappingFile id reference s = .ok ((), s')) :
    Leaves (.setMappingFile id reference) s s' := by
  obtain ⟨found, hfound, hdraft⟩ := setMappingFile_draft hok
  rw [setMappingFile_ok hok]
  refine .of_update rfl (fun _ => rfl) ?_ fun order _ _ => .inl (firstTries_of_items rfl order)
  intro o ho
  obtain rfl := Option.some.inj (hfound.symm.trans ho)
  exact ⟨fun h => h, .inl rfl, .inr ⟨hdraft, reference, by rw [(order?_mem ho).2], rfl⟩⟩

/-- Items are added to drafted orders only. -/
theorem leaves_addItem {item : Item} (hok : addItem item s = .ok ((), s')) : Leaves k s s' := by
  obtain ⟨found, hfound, hdraft, -, -, rfl⟩ := addItem_ok hok
  refine .of_touch rfl (fun _ => rfl) (fun _ h => h) (fun _ => ⟨rfl, rfl⟩) ?_
  intro order o ho
  by_cases hhere : item.orderId = order
  · subst hhere
    obtain rfl := Option.some.inj (hfound.symm.trans ho)
    exact .inr hdraft
  · exact .inl (firstTries_append rfl (.inl hhere))

/-- A retry has an order that failed processed again, and the item it puts in is no first
try. -/
theorem leaves_retry {next : Item} {o : Order} (hok : retry next s = .ok (o, s')) :
    Leaves k s s' := by
  obtain ⟨failedId, failed, before, hretry, -, -, -, -, -, -, rfl, -⟩ := retry_ok hok
  refine .of_touch rfl reopen_id ?_ (fun _ => ⟨rfl, rfl⟩) ?_
  · intro o hsent
    simp only [reopen, releaseFailed]
    split
    · exact OrderStatus.noConfusion
    · exact hsent
  · exact fun order _ _ => .inl (firstTries_append rfl (.inr (by rw [hretry]; simp)))

theorem leaves_resolve {held : Item} {o : Order} (hok : resolve held s = .ok (o, s')) :
    Leaves k s s' := by
  obtain ⟨-, -, rfl, -⟩ := resolve_ok hok
  refine .of_touch rfl (fun o => ?_) (fun o hsent => ?_) (fun o => ?_)
    fun order _ _ => .inl (firstTries_updateItem (settle_keeps held) rfl order)
  · exact (countResolution_counters _ o).1
  · cases held.status <;> exact hsent
  · cases held.status <;> exact ⟨rfl, rfl⟩

/-- What any accepted operation leaves of the choices. -/
theorem Call.leaves (hok : k.perform s = .ok s') : Leaves k s s' := by
  cases k with
  | createOrder id name =>
    obtain ⟨_, hok⟩ := map_snd_eq_ok.mp hok
    exact leaves_createOrder hok
  | addItem item =>
    obtain ⟨_, hok⟩ := map_snd_eq_ok.mp hok
    exact leaves_addItem hok
  | attachFile file =>
    obtain ⟨_, hok⟩ := map_snd_eq_ok.mp hok
    obtain ⟨i, -, -, -, -, -, -, rfl⟩ := attachFile_ok hok
    refine .of_orders rfl (firstTries_updateItem (fun i => ?_) rfl)
    exact ⟨rfl, rfl, rfl⟩
  | setMappingKeys id keys =>
    obtain ⟨_, hok⟩ := map_snd_eq_ok.mp hok
    exact leaves_setMappingKeys hok
  | setMappingFile id reference =>
    obtain ⟨_, hok⟩ := map_snd_eq_ok.mp hok
    exact leaves_setMappingFile hok
  | submit id =>
    obtain ⟨_, hok⟩ := map_snd_eq_ok.mp hok
    obtain ⟨-, -, -, -, -, rfl⟩ := submit_ok hok
    exact leaves_status (by decide)
  | begin id now =>
    obtain ⟨_, hok⟩ := map_snd_eq_ok.mp hok
    obtain ⟨-, -, ⟨-, -, rfl⟩ | ⟨-, -, rfl⟩⟩ := begin_ok hok
    · refine .of_orders rfl (firstTries_updateItem (fun i => ?_) rfl)
      exact ⟨rfl, rfl, rfl⟩
    · exact .of_orders rfl fun _ => rfl
  | putResult result =>
    obtain ⟨_, hok⟩ := map_snd_eq_ok.mp hok
    obtain ⟨horders, hitems, -⟩ := putResult_ok hok
    exact .of_orders horders (firstTries_of_items hitems)
  | resolve held =>
    obtain ⟨_, hok⟩ := map_snd_eq_ok.mp hok
    exact leaves_resolve hok
  | moveOrder id source target =>
    obtain ⟨_, hok⟩ := map_snd_eq_ok.mp hok
    obtain ⟨hleads, ⟨-, -, -, -, rfl⟩ | ⟨-, rfl⟩⟩ := moveOrder_ok hok
    · exact leaves_status (ne_draft_of_leadsTo hleads)
    · exact .of_orders rfl fun _ => rfl
  | rollUp snapshot target =>
    obtain ⟨_, hok⟩ := map_snd_eq_ok.mp hok
    obtain ⟨-, hleads, ⟨-, -, -, -, rfl⟩ | ⟨-, rfl⟩⟩ := rollUp_ok hok
    · exact leaves_status (ne_draft_of_leadsTo hleads)
    · exact .of_orders rfl fun _ => rfl
  | noteError id error =>
    obtain ⟨_, hok⟩ := (map_snd_eq_ok (x := Store.noteError id error s)).mp hok
    rw [noteError_ok hok]
    exact .of_touch rfl (fun _ => rfl) (fun _ h => h) (fun _ => ⟨rfl, rfl⟩)
      fun order _ _ => .inl (firstTries_of_items rfl order)
  | retry next =>
    obtain ⟨_, hok⟩ := map_snd_eq_ok.mp hok
    exact leaves_retry hok
  | saveMerged id table =>
    obtain ⟨_, hok⟩ := map_snd_eq_ok.mp hok
    obtain ⟨-, rfl⟩ := saveMerged_ok hok
    exact .of_orders rfl fun _ => rfl
  | setReportPaths id paths =>
    obtain ⟨_, hok⟩ := (map_snd_eq_ok (x := Store.setReportPaths id paths s)).mp hok
    rw [setReportPaths_ok hok]
    exact .of_touch rfl (fun _ => rfl) (fun _ h => h) (fun _ => ⟨rfl, rfl⟩)
      fun order _ _ => .inl (firstTries_of_items rfl order)
  | saveTemplate template =>
    obtain ⟨_, hok⟩ := map_snd_eq_ok.mp hok
    obtain ⟨horders, hitems, -⟩ := saveTemplate_ok hok
    exact .of_orders horders (firstTries_of_items hitems)
  | saveBinding binding =>
    obtain ⟨_, hok⟩ := map_snd_eq_ok.mp hok
    obtain ⟨horders, hitems, -⟩ := saveBinding_ok hok
    exact .of_orders horders (firstTries_of_items hitems)

/-! What any number of operations do. -/

def Seals (s s' : Store) : Prop :=
  ∀ id o, s.order? id = some o → o.status ≠ .draft →
    ∃ o', s'.order? id = some o' ∧ o'.status ≠ .draft ∧ o'.mappingKeys = o.mappingKeys ∧
      o'.mappingFile = o.mappingFile ∧ s'.firstTries id = s.firstTries id

theorem Seals.refl (s : Store) : s.Seals s := fun _ o ho hsent => ⟨o, ho, hsent, rfl, rfl, rfl⟩

theorem Seals.trans (h : s.Seals s') (h' : s'.Seals t) : s.Seals t := by
  intro id o ho hsent
  obtain ⟨o', ho', hsent', hkeys, hfile, hitems⟩ := h id o ho hsent
  obtain ⟨o'', ho'', hsent'', hkeys', hfile', hitems'⟩ := h' id o' ho' hsent'
  exact ⟨o'', ho'', hsent'', hkeys'.trans hkeys, hfile'.trans hfile, hitems'.trans hitems⟩

theorem Leaves.seals (h : Leaves k s s') : s.Seals s' := by
  intro id o ho hsent
  obtain ⟨o', ho', hamends⟩ := h.orders id o ho
  refine ⟨o', ho', hamends.sent hsent, ?_, ?_, ?_⟩
  · exact hamends.keys.resolve_right fun hdraft => hsent hdraft.1
  · exact hamends.file.resolve_right fun hdraft => hsent hdraft.1
  · exact (h.items id o ho).resolve_right hsent

def KeyedAs (asked : String → List String → Prop) (s : Store) : Prop :=
  ∀ id o keys, s.order? id = some o → o.mappingKeys = some keys → asked id keys

theorem Leaves.keyedAs {asked : String → List String → Prop} (h : Leaves k s s')
    (hasked : ∀ id keys, k = .setMappingKeys id keys → asked id keys) (hs : s.KeyedAs asked) :
    s'.KeyedAs asked := by
  intro id o' keys ho' hkeys
  cases ho : s.order? id with
  | none =>
    rw [(h.created id o' ho ho').1] at hkeys
    cases hkeys
  | some o =>
    obtain ⟨after, hafter, hamends⟩ := h.orders id o ho
    obtain rfl := Option.some.inj (hafter.symm.trans ho')
    rcases hamends.keys with hsame | ⟨-, new, rfl, hnew⟩
    · exact hs id o keys ho (hsame.symm.trans hkeys)
    · obtain rfl := Option.some.inj (hnew.symm.trans hkeys)
      rw [← (order?_mem ho).2]
      exact hasked _ _ rfl

end Store

end Collate
