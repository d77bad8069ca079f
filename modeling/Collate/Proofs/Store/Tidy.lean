import Collate.Proofs.Store.Change

/-!
Files and results. A file belongs to one item, and a result to a file of an item
that is final; `Tidy` is what holds between calls of the service, whoever makes
them. Most operations resolve nothing: they leave results and final items as
they are and make no item final. Such steps `Rest`.
-/

namespace Collate

/-- No text is repeated, and none was seen before. -/
theorem repeated?_eq_none {seen texts : List String} :
    repeated? seen texts = none ↔ texts.Nodup ∧ ∀ text ∈ texts, text ∉ seen := by
  induction texts generalizing seen with
  | nil => simp [repeated?]
  | cons text rest ih =>
    rw [repeated?]
    by_cases hseen : text ∈ seen
    · simp [hseen]
    · rw [if_neg (by simpa using hseen), ih, List.nodup_cons]
      simp only [List.mem_cons, not_or, forall_eq_or_imp, hseen, not_false_eq_true, true_and]
      constructor
      · rintro ⟨hnodup, hnew⟩
        exact ⟨⟨fun hmem => (hnew text hmem).1 rfl, hnodup⟩,
          fun other hother => (hnew other hother).2⟩
      · rintro ⟨⟨hnot, hnodup⟩, hnew⟩
        exact ⟨hnodup, fun other hother => ⟨fun heq => hnot (heq ▸ hother), hnew other hother⟩⟩

namespace Store

variable {s s' t : Store}

theorem hasFile_iff {file : String} :
    s.hasFile file = true ↔ ∃ i ∈ s.items, ∃ f ∈ i.files, f.id = file := by
  simp [hasFile]

theorem freshFiles_ok {files : List FileRef} (h : s.freshFiles files = .ok ()) :
    (∀ i ∈ s.items, ∀ f ∈ i.files, ∀ g ∈ files, f.id ≠ g.id) ∧ (files.map (·.id)).Nodup := by
  unfold freshFiles at h
  split at h
  · simp at h
  · rename_i hnew
    split at h
    · simp at h
    · rename_i honce
      simp only [Bool.not_eq_true, Option.isSome_eq_false_iff, Option.isNone_iff_eq_none] at honce
      refine ⟨?_, (repeated?_eq_none.mp honce).1⟩
      intro i hi f hf g hg heq
      exact hnew (List.any_eq_true.mpr ⟨g, hg, hasFile_iff.mpr ⟨i, hi, f, hf, heq⟩⟩)

/-- Files know their item, and no two files have one id. -/
structure Filed (s : Store) : Prop where
  owned : ∀ i ∈ s.items, ∀ f ∈ i.files, f.itemId = i.id
  distinct : ∀ i ∈ s.items, (i.files.map (·.id)).Nodup
  apart : ∀ i ∈ s.items, ∀ j ∈ s.items, ∀ f ∈ i.files, ∀ g ∈ j.files, f.id = g.id → i.id = j.id

/-- There is one result for a file at most, and only for files of final
items. -/
structure Recorded (s : Store) : Prop where
  once : (s.results.map (·.fileId)).Nodup
  filed : ∀ r ∈ s.results, ∃ i ∈ s.items, i.id = r.itemId ∧ i.status.isFinal = true ∧
    ∃ f ∈ i.files, f.id = r.fileId

/-- What holds between calls of the service, whoever makes them. -/
structure Tidy (s : Store) : Prop extends Balanced s, Filed s, Recorded s where
  idle : ∀ i ∈ s.items, i.status ≠ .processing

theorem empty_tidy : Store.empty.Tidy := by
  refine ⟨empty_balanced, ⟨?_, ?_, ?_⟩, ⟨List.nodup_nil, ?_⟩, ?_⟩
  · simp [Store.empty]
  · simp [Store.empty]
  · simp [Store.empty]
  · simp [Store.empty]
  · simp [Store.empty]

theorem Filed.of_items (h : s.Filed) (hitems : s'.items = s.items) : s'.Filed :=
  ⟨hitems ▸ h.owned, hitems ▸ h.distinct, hitems ▸ h.apart⟩

/-- Results are about final items, so they stay in place where these do. -/
theorem Recorded.of_frozen (h : s.Recorded) (hfrozen : s.Frozen s')
    (hresults : s'.results = s.results) : s'.Recorded := by
  refine ⟨hresults ▸ h.once, ?_⟩
  intro r hr
  rw [hresults] at hr
  obtain ⟨i, hi, hid, hfinal, hfile⟩ := h.filed r hr
  exact ⟨i, hfrozen.items i hi hfinal, hid, hfinal, hfile⟩

theorem Tidy.of_same (h : s.Tidy) (horders : s'.orders = s.orders) (hitems : s'.items = s.items)
    (hresults : s'.results = s.results) : s'.Tidy := by
  refine ⟨h.toBalanced.of_eq horders hitems, h.toFiled.of_items hitems, ⟨hresults ▸ h.once, ?_⟩,
    hitems ▸ h.idle⟩
  rw [hresults, hitems]
  exact h.filed

theorem Filed.insert (h : s.Filed) {item : Item} (hitems : s'.items = s.items ++ [item])
    (howned : ∀ f ∈ item.files, f.itemId = item.id) (hfresh : s.freshFiles item.files = .ok ()) :
    s'.Filed := by
  obtain ⟨hnew, hdistinct⟩ := freshFiles_ok hfresh
  refine ⟨?_, ?_, ?_⟩
  · intro i hi
    rw [hitems, List.mem_append, List.mem_singleton] at hi
    rcases hi with hold | rfl
    · exact h.owned i hold
    · exact howned
  · intro i hi
    rw [hitems, List.mem_append, List.mem_singleton] at hi
    rcases hi with hold | rfl
    · exact h.distinct i hold
    · exact hdistinct
  · intro i hi j hj f hf g hg heq
    rw [hitems, List.mem_append, List.mem_singleton] at hi hj
    rcases hi with hi | rfl
    · rcases hj with hj | rfl
      · exact h.apart i hi j hj f hf g hg heq
      · exact absurd heq (hnew i hi f hf g hg)
    · rcases hj with hj | rfl
      · exact absurd heq.symm (hnew j hj g hg f hf)
      · rfl

theorem Filed.updateItem (h : s.Filed) {id : String} {change : Item → Item}
    (hchange : ∀ i ∈ s.items, i.id = id → (change i).id = i.id ∧ (change i).files = i.files) :
    (s.updateItem id change).Filed := by
  have hsame : ∀ i ∈ (s.updateItem id change).items, ∃ j ∈ s.items, i.id = j.id ∧
      i.files = j.files := by
    intro i hi
    obtain ⟨j, hj, ⟨hhere, rfl⟩ | ⟨-, rfl⟩⟩ := updateItem_cases hi
    · exact ⟨j, hj, hchange j hj hhere⟩
    · exact ⟨_, hj, rfl, rfl⟩
  refine ⟨?_, ?_, ?_⟩
  · intro i hi
    obtain ⟨j, hj, hid, hfiles⟩ := hsame i hi
    rw [hid, hfiles]
    exact h.owned j hj
  · intro i hi
    obtain ⟨j, hj, -, hfiles⟩ := hsame i hi
    rw [hfiles]
    exact h.distinct j hj
  · intro i hi k hk
    obtain ⟨j, hj, hid, hfiles⟩ := hsame i hi
    obtain ⟨l, hl, hid', hfiles'⟩ := hsame k hk
    rw [hid, hfiles, hid', hfiles']
    exact h.apart j hj l hl

theorem Filed.attach (h : s.Filed) (hnodup : (s.items.map (·.id)).Nodup) {i : Item}
    (hi : i ∈ s.items) {file : FileRef} (hitem : file.itemId = i.id)
    (hfresh : s.freshFiles [file] = .ok ()) :
    (s.updateItem i.id fun i => { i with files := i.files ++ [file] }).Filed := by
  obtain ⟨hnew, -⟩ := freshFiles_ok hfresh
  have hnew : ∀ j ∈ s.items, ∀ f ∈ j.files, f.id ≠ file.id :=
    fun j hj f hf => hnew j hj f hf file (List.mem_singleton.mpr rfl)
  -- every file is an old one of the same item, or the new one
  have hsame : ∀ j ∈ (s.updateItem i.id fun i => { i with files := i.files ++ [file] }).items,
      ∃ k ∈ s.items, j.id = k.id ∧ (j.files = k.files ∨ k = i ∧ j.files = i.files ++ [file]) := by
    intro j hj
    obtain ⟨k, hk, ⟨hid, rfl⟩ | ⟨-, rfl⟩⟩ := updateItem_cases hj
    · obtain rfl := List.inj_on_of_nodup_map hnodup hk hi hid
      exact ⟨_, hk, rfl, Or.inr ⟨rfl, rfl⟩⟩
    · exact ⟨_, hk, rfl, Or.inl rfl⟩
  have hfile : ∀ j ∈ (s.updateItem i.id fun i => { i with files := i.files ++ [file] }).items,
      ∀ f ∈ j.files, (∃ k ∈ s.items, j.id = k.id ∧ f ∈ k.files) ∨ (j.id = i.id ∧ f = file) := by
    intro j hj f hf
    obtain ⟨k, hk, hid, hfiles | ⟨rfl, hfiles⟩⟩ := hsame j hj
    · exact Or.inl ⟨k, hk, hid, hfiles ▸ hf⟩
    · rw [hfiles, List.mem_append, List.mem_singleton] at hf
      exact hf.imp (fun hold => ⟨k, hk, hid, hold⟩) fun hnew => ⟨hid, hnew⟩
  refine ⟨?_, ?_, ?_⟩
  · intro j hj f hf
    rcases hfile j hj f hf with ⟨k, hk, hid, hold⟩ | ⟨hid, rfl⟩
    · rw [hid]
      exact h.owned k hk f hold
    · rw [hid]
      exact hitem
  · intro j hj
    obtain ⟨k, hk, -, hfiles | ⟨rfl, hfiles⟩⟩ := hsame j hj
    · rw [hfiles]
      exact h.distinct k hk
    · rw [hfiles]
      exact nodup_map_concat (h.distinct k hk) (hnew k hk)
  · intro j hj k hk f hf g hg heq
    rcases hfile j hj f hf with ⟨l, hl, hid, hold⟩ | ⟨hid, rfl⟩
    · rcases hfile k hk g hg with ⟨m, hm, hid', hold'⟩ | ⟨hid', rfl⟩
      · rw [hid, hid']
        exact h.apart l hl m hm f hold g hold' heq
      · exact absurd heq (hnew l hl f hold)
    · rcases hfile k hk g hg with ⟨m, hm, hid', hold'⟩ | ⟨hid', rfl⟩
      · exact absurd heq.symm (hnew m hm g hold')
      · rw [hid, hid']

/-! Steps that resolve nothing. -/

/-- No item becomes final, and what is final stays as it is. -/
structure Rests (s s' : Store) : Prop extends Frozen s s' where
  back : ∀ i ∈ s'.items, i.status.isFinal = true → i ∈ s.items
  results : s'.results = s.results

theorem Rests.refl (s : Store) : s.Rests s := ⟨Frozen.refl s, fun _ hi _ => hi, rfl⟩

theorem Rests.trans (h : s.Rests s') (h' : s'.Rests t) : s.Rests t :=
  ⟨h.toFrozen.trans h'.toFrozen, fun i hi hfinal => h.back i (h'.back i hi hfinal) hfinal,
    h'.results.trans h.results⟩

/-- A step that keeps a store tidy and resolves nothing. -/
def Idles (s s' : Store) : Prop := s.Tidy → s'.Tidy ∧ s.Rests s'

theorem Idles.refl (s : Store) : s.Idles s := fun h => ⟨h, Rests.refl s⟩

theorem Idles.trans (h : s.Idles s') (h' : s'.Idles t) : s.Idles t := by
  intro htidy
  obtain ⟨htidy', hrests⟩ := h htidy
  obtain ⟨htidy'', hrests'⟩ := h' htidy'
  exact ⟨htidy'', hrests.trans hrests'⟩

/-- A change to orders only. -/
theorem idles_of_items (hbalanced : s.Balanced → s'.Balanced)
    (hchange : s.Keyed → s.Change s') (hitems : s'.items = s.items)
    (hresults : s'.results = s.results) : s.Idles s' := by
  intro h
  have hfrozen := h.keyed.frozen (hchange h.keyed)
  exact ⟨⟨hbalanced h.toBalanced, h.toFiled.of_items hitems,
    h.toRecorded.of_frozen hfrozen hresults, hitems ▸ h.idle⟩, hfrozen,
    fun i hi _ => hitems ▸ hi, hresults⟩

/-- A change to an order that leaves its counters alone. -/
theorem idles_updateOrder {id : String} {change : Order → Order}
    (hchange : s.Change (s.updateOrder id change)) (hid : ∀ o, (change o).id = o.id)
    (hsame : ∀ o, (change o).total = o.total ∧ (change o).completed = o.completed ∧
      (change o).failed = o.failed) : s.Idles (s.updateOrder id change) :=
  idles_of_items (fun h => h.updateOrder hid hsame) (fun _ => hchange) rfl rfl

theorem idles_status {id : String} {target : OrderStatus} (htarget : target ≠ .draft) :
    s.Idles (s.updateOrder id fun o => { o with status := target }) :=
  idles_updateOrder (change_status htarget) (fun _ => rfl) fun _ => ⟨rfl, rfl, rfl⟩

/-- One more item, which is pending. -/
theorem idles_insert {item : Item} (hbalanced : s.Balanced → s'.Balanced)
    (hchange : s.Balanced → s.Change s') (hitems : s'.items = s.items ++ [item])
    (hresults : s'.results = s.results) (hpending : item.status = .pending)
    (howned : ∀ f ∈ item.files, f.itemId = item.id) (hfresh : s.freshFiles item.files = .ok ()) :
    s.Idles s' := by
  intro h
  have hfrozen := h.keyed.frozen (hchange h.toBalanced)
  refine ⟨⟨hbalanced h.toBalanced, h.toFiled.insert hitems howned hfresh,
    h.toRecorded.of_frozen hfrozen hresults, ?_⟩, hfrozen, ?_, hresults⟩
  · intro i hi
    rw [hitems, List.mem_append, List.mem_singleton] at hi
    rcases hi with hold | rfl
    · exact h.idle i hold
    · rw [hpending]
      exact ItemStatus.noConfusion
  · intro i hi hfinal
    rw [hitems, List.mem_append, List.mem_singleton] at hi
    rcases hi with hold | rfl
    · exact hold
    · rw [hpending] at hfinal
      cases hfinal

theorem idles_createOrder {id : String} {name : Option String}
    (hok : createOrder (Order.create id name) s = .ok ((), s')) : s.Idles s' := by
  refine idles_of_items (fun h => h.createOrder hok) (fun _ => change_createOrder hok) ?_ ?_
  · rw [(createOrder_ok hok).2]
  · rw [(createOrder_ok hok).2]

theorem idles_addItem {item : Item} (hok : addItem item s = .ok ((), s'))
    (hfirst : item.retryOf = none) (hbare : item.files = []) : s.Idles s' := by
  obtain ⟨-, -, -, hpending, hadmits, hs⟩ := addItem_ok hok
  refine idles_insert (fun h => h.addItem hok hfirst) (fun _ => change_addItem hok) ?_ ?_ hpending
    ?_ hadmits.files
  · rw [hs]
    rfl
  · rw [hs]
    rfl
  · simp [hbare]

theorem idles_attachFile {file : FileRef} (hok : attachFile file s = .ok ((), s')) :
    s.Idles s' := by
  intro h
  have hfrozen := h.keyed.frozen (change_attachFile hok)
  have hbalanced := h.toBalanced.attachFile hok
  obtain ⟨i, -, hfound, -, -, hopen, hfresh, rfl⟩ := attachFile_ok hok
  obtain ⟨hi, hid⟩ := item?_mem hfound
  refine ⟨⟨hbalanced, h.toFiled.attach h.items_nodup hi hid.symm hfresh,
    h.toRecorded.of_frozen hfrozen rfl, ?_⟩, hfrozen, ?_, rfl⟩
  · intro j hj
    obtain ⟨k, hk, ⟨-, rfl⟩ | ⟨-, rfl⟩⟩ := updateItem_cases hj
    · exact h.idle k hk
    · exact h.idle _ hk
  · intro j hj hfinal
    obtain ⟨k, hk, ⟨hhere, rfl⟩ | ⟨-, rfl⟩⟩ := updateItem_cases hj
    · rw [h.item_unique hk hi hhere] at hfinal
      exact absurd hfinal (by rw [hopen]; exact Bool.false_ne_true)
    · exact hk

theorem idles_setMappingKeys {id : String} {keys : List String}
    (hok : setMappingKeys id keys s = .ok ((), s')) : s.Idles s' := by
  refine idles_of_items (fun h => h.setMappingKeys hok) (fun h => change_setMappingKeys h hok) ?_ ?_
  · rw [(setMappingKeys_ok hok).2]
    rfl
  · rw [(setMappingKeys_ok hok).2]
    rfl

theorem idles_submit {id : String} {pending : List String}
    (hok : submit id s = .ok (pending, s')) : s.Idles s' := by
  obtain ⟨-, -, -, -, -, rfl⟩ := submit_ok hok
  exact idles_status (by decide)

theorem idles_moveOrder {id : String} {source target : OrderStatus} {moved : Bool}
    (hok : moveOrder id source target s = .ok (moved, s')) : s.Idles s' := by
  obtain ⟨hleads, ⟨-, -, -, -, rfl⟩ | ⟨-, rfl⟩⟩ := moveOrder_ok hok
  · exact idles_status (ne_draft_of_leadsTo hleads)
  · exact Idles.refl _

theorem idles_rollUp {snapshot : Order} {target : OrderStatus} {moved : Bool}
    (hok : rollUp snapshot target s = .ok (moved, s')) : s.Idles s' := by
  obtain ⟨-, hleads, ⟨-, -, -, -, rfl⟩ | ⟨-, rfl⟩⟩ := rollUp_ok hok
  · exact idles_status (ne_draft_of_leadsTo hleads)
  · exact Idles.refl _

theorem idles_saveMerged {id : String} {table : Merged}
    (hok : saveMerged id table s = .ok ((), s')) : s.Idles s' := by
  obtain ⟨-, rfl⟩ := saveMerged_ok hok
  exact idles_of_items (fun h => h.of_eq rfl rfl) (fun _ => .same rfl rfl) rfl rfl

/-- The next try of an item that was looked up takes copies of its files
along. -/
theorem idles_retry {failed next : Item} {idAt : Nat → String} {now : Time.Timestamp} {o : Order}
    (hfound : s.item? failed.id = some failed) (hnext : failed.retryFrom idAt now = .ok next)
    (hok : retry next s = .ok (o, s')) : s.Idles s' := by
  obtain ⟨hmem, -⟩ := item?_mem hfound
  obtain ⟨hplace, hpending, hretry, howned⟩ := retryFrom_ok hnext
  have hplaces : s.Balanced → ∀ i ∈ s.items, next.retryOf = some i.id →
      i.orderId = next.orderId := by
    intro h i hi htries
    rw [hretry, Option.some.injEq] at htries
    rw [h.item_unique hi hmem htries.symm, hplace]
  obtain ⟨failedId, found, before, -, -, -, -, -, -, hadmits, hs, -⟩ := retry_ok hok
  refine idles_insert (fun h => h.retry hok (hplaces h) (by rw [hpending]; rfl))
    (fun h => change_retry hok (hplaces h)) ?_ ?_ hpending howned hadmits.files
  · rw [hs]
  · rw [hs]
    rfl

end Store

end Collate
