import Collate.Proofs.Store.Lasting

/-!
Chains of tries. Items stand in the order in which they were put in, and an item
tries one again that was there before; so trying again never leads back to where
it began. A retry is made from an item that has failed and therefore stays as it
is, while the retry itself keeps what it took over whatever happens to it.
-/

namespace Collate

/-- What of a file goes along with a copy of it. -/
def FileRef.contents (file : FileRef) : FileRole × String × Nat × String × Option String :=
  (file.role, file.filename, file.length, file.storageRef, file.contentType)

/-- An item does the work of another one: in the same order, on the same document,
with copies of its files before any others. -/
structure Item.TakesOver (next failed : Item) : Prop where
  order : next.orderId = failed.orderId
  company : next.company = failed.company
  documentType : next.documentType = failed.documentType
  name : next.name = failed.name
  files : failed.files.map FileRef.contents <+: next.files.map FileRef.contents

/-- Whatever is done to an item, it goes on with what it took over. -/
theorem Item.TakesOver.evolves {i i' failed : Item} (h : i.TakesOver failed)
    (hevolves : Store.Evolves i i') : i'.TakesOver failed := by
  obtain ⟨horder, hcompany, htype, hname, hfiles⟩ := h
  cases hevolves with
  | stays => exact ⟨horder, hcompany, htype, hname, hfiles⟩
  | filed file _ =>
    refine ⟨horder, hcompany, htype, hname, hfiles.trans ?_⟩
    rw [List.map_append]
    exact List.prefix_append _ _
  | started => exact ⟨horder, hcompany, htype, hname, hfiles⟩
  | settled => exact ⟨horder, hcompany, htype, hname, hfiles⟩

namespace Store

variable {s s' : Store}

/-- Every item that tries one again follows it, takes over from it and is the only
one to do so, and the item that is tried again has failed. -/
structure Linked (s : Store) : Prop where
  nodup : (s.items.map (·.id)).Nodup
  tries : ∀ i ∈ s.items, ∀ failed, i.retryOf = some failed →
    ∃ j ∈ s.items, j.id = failed ∧ j.status = .failed ∧ i.TakesOver j
  once : ∀ i ∈ s.items, ∀ j ∈ s.items, i.retryOf.isSome = true → i.retryOf = j.retryOf →
    i.id = j.id
  other : ∀ i ∈ s.items, i.retryOf ≠ some i.id
  later : s.items.Pairwise fun i j => i.retryOf ≠ some j.id

theorem empty_linked : Store.empty.Linked := by
  refine ⟨List.nodup_nil, ?_, ?_, ?_, .nil⟩ <;> simp [Store.empty]

theorem Linked.of_items (h : s.Linked) (hitems : s'.items = s.items) : s'.Linked :=
  ⟨hitems ▸ h.nodup, hitems ▸ h.tries, hitems ▸ h.once, hitems ▸ h.other, hitems ▸ h.later⟩

theorem Linked.item_unique (h : s.Linked) {i j : Item} (hi : i ∈ s.items) (hj : j ∈ s.items)
    (hid : i.id = j.id) : i = j :=
  List.inj_on_of_nodup_map h.nodup hi hj hid

/-! Items that are worked on. -/

theorem Evolves.retryOf {i i' : Item} (h : Evolves i i') : i'.retryOf = i.retryOf := by
  cases h <;> rfl

theorem Linked.map (h : s.Linked) (change : Item → Item) (hitems : s'.items = s.items.map change)
    (hevolves : ∀ i ∈ s.items, Evolves i (change i)) : s'.Linked := by
  have hpast : ∀ i' ∈ s'.items, ∃ i ∈ s.items, Evolves i i' := by
    intro i' hi'
    rw [hitems] at hi'
    obtain ⟨i, hi, rfl⟩ := List.mem_map.mp hi'
    exact ⟨i, hi, hevolves i hi⟩
  have hids : s'.items.map (·.id) = s.items.map (·.id) := by
    rw [hitems, List.map_map]
    exact List.map_congr_left fun i hi => (hevolves i hi).id
  refine ⟨hids ▸ h.nodup, ?_, ?_, ?_, ?_⟩
  · intro i' hi' failed hretry
    obtain ⟨i, hi, hevolved⟩ := hpast i' hi'
    obtain ⟨j, hj, hid, hfailed, htakes⟩ := h.tries i hi failed (hevolved.retryOf ▸ hretry)
    -- the item that is tried again is final, so it did not change
    have hsame : change j = j := (hevolves j hj).eq_of_final (by rw [hfailed]; rfl)
    refine ⟨j, ?_, hid, hfailed, htakes.evolves hevolved⟩
    rw [hitems]
    exact List.mem_map.mpr ⟨j, hj, hsame⟩
  · intro i' hi' j' hj' hsome heq
    obtain ⟨i, hi, hevolved⟩ := hpast i' hi'
    obtain ⟨j, hj, hevolved'⟩ := hpast j' hj'
    rw [hevolved.retryOf] at hsome heq
    rw [hevolved'.retryOf] at heq
    rw [hevolved.id, hevolved'.id]
    exact h.once i hi j hj hsome heq
  · intro i' hi'
    obtain ⟨i, hi, hevolved⟩ := hpast i' hi'
    rw [hevolved.retryOf, hevolved.id]
    exact h.other i hi
  · rw [hitems, List.pairwise_map]
    refine h.later.imp_of_mem fun {i j} hi hj hne => ?_
    rwa [(hevolves i hi).retryOf, (hevolves j hj).id]

theorem Linked.updateItem (h : s.Linked) {i : Item} (hi : i ∈ s.items) {change : Item → Item}
    (hevolves : Evolves i (change i)) (hitems : s'.items = (s.updateItem i.id change).items) :
    s'.Linked := by
  refine h.map (fun j => if j.id == i.id then change j else j) hitems ?_
  intro j hj
  by_cases hid : j.id = i.id
  · obtain rfl := h.item_unique hj hi hid
    simpa using hevolves
  · rw [if_neg (by simpa using hid)]
    exact .stays j

/-! Items that are put in. -/

theorem Linked.insert (h : s.Linked) {item : Item} (hitems : s'.items = s.items ++ [item])
    (hnew : s.item? item.id = none)
    (htries : ∀ failed, item.retryOf = some failed → s.isRetried failed = false ∧
      ∃ j ∈ s.items, j.id = failed ∧ j.status = .failed ∧ item.TakesOver j) : s'.Linked := by
  have hnew : ∀ i ∈ s.items, i.id ≠ item.id := item?_eq_none.mp hnew
  have honly : ∀ i ∈ s.items, item.retryOf.isSome = true → i.retryOf ≠ item.retryOf := by
    intro i hi hsome heq
    obtain ⟨failed, hfailed⟩ := Option.isSome_iff_exists.mp hsome
    have hretried : s.isRetried failed = true := isRetried_iff.mpr ⟨i, hi, heq.trans hfailed⟩
    simp [(htries failed hfailed).1] at hretried
  refine ⟨?_, ?_, ?_, ?_, ?_⟩
  · rw [hitems]
    exact nodup_map_concat h.nodup hnew
  · intro i hi failed hretry
    rw [hitems] at hi ⊢
    rcases List.mem_append.mp hi with hold | hitem
    · obtain ⟨j, hj, hrest⟩ := h.tries i hold failed hretry
      exact ⟨j, List.mem_append_left _ hj, hrest⟩
    · obtain rfl := List.mem_singleton.mp hitem
      obtain ⟨-, j, hj, hrest⟩ := htries failed hretry
      exact ⟨j, List.mem_append_left _ hj, hrest⟩
  · intro i hi j hj hsome heq
    rw [hitems, List.mem_append, List.mem_singleton] at hi hj
    rcases hi with hi | rfl
    · rcases hj with hj | rfl
      · exact h.once i hi j hj hsome heq
      · exact absurd heq (honly i hi (heq ▸ hsome))
    · rcases hj with hj | rfl
      · exact absurd heq.symm (honly j hj hsome)
      · rfl
  · intro i hi hretry
    rw [hitems, List.mem_append, List.mem_singleton] at hi
    rcases hi with hi | rfl
    · exact h.other i hi hretry
    · obtain ⟨-, j, hj, hid, -⟩ := htries i.id hretry
      exact hnew j hj hid
  · rw [hitems, List.pairwise_append]
    refine ⟨h.later, List.pairwise_singleton _ _, ?_⟩
    intro i hi j hj hretry
    rw [List.mem_singleton.mp hj] at hretry
    obtain ⟨k, hk, hid, -⟩ := h.tries i hi item.id hretry
    exact hnew k hk hid

/-! Operations. -/

def Links (s s' : Store) : Prop := s.Linked → s'.Linked

theorem links_of_items (hitems : s'.items = s.items) : s.Links s' := fun h => h.of_items hitems

theorem links_addItem {item : Item} (hok : addItem item s = .ok ((), s'))
    (hfirst : item.retryOf = none) : s.Links s' := by
  intro h
  obtain ⟨-, -, -, -, hadmits, rfl⟩ := addItem_ok hok
  refine h.insert rfl hadmits.new ?_
  intro failed hfailed
  rw [hfirst] at hfailed
  cases hfailed

theorem links_attachFile {file : FileRef} (hok : attachFile file s = .ok ((), s')) :
    s.Links s' := by
  intro h
  obtain ⟨i, -, hi, -, -, hopen, -, rfl⟩ := attachFile_ok hok
  exact h.updateItem (item?_mem hi).1 (.filed file hopen) rfl

theorem links_begin {id : String} {now : Time.Timestamp} {started : Option Item}
    (hok : begin id now s = .ok (started, s')) : s.Links s' := by
  intro h
  obtain ⟨i, hi, ⟨hpending, -, rfl⟩ | ⟨-, -, rfl⟩⟩ := begin_ok hok
  · obtain ⟨hmem, rfl⟩ := item?_mem hi
    exact h.updateItem hmem (.started now hpending) rfl
  · exact h

theorem links_resolve {held : Item} {o : Order} (hok : resolve held s = .ok (o, s')) :
    s.Links s' := by
  intro h
  obtain ⟨hfinal, ⟨i, hi, hprocessing⟩, rfl, -⟩ := resolve_ok hok
  obtain ⟨hmem, hid⟩ := item?_mem hi
  exact h.updateItem hmem (.settled held hprocessing hfinal) (by rw [hid]; rfl)

/-- The next try of an item does its work. -/
theorem retryFrom_takesOver {failed next : Item} {idAt : Nat → String} {now : Time.Timestamp}
    (h : failed.retryFrom idAt now = .ok next) : next.TakesOver failed := by
  unfold Item.retryFrom at h
  split at h
  · cases h
    refine ⟨rfl, rfl, rfl, rfl, ?_⟩
    have hcopies : (failed.files.mapIdx fun n file => file.copyTo (idAt (n + 1)) (idAt 0)).map
        FileRef.contents = failed.files.map FileRef.contents := by
      apply List.ext_getElem (by simp)
      intro n _ _
      simp [FileRef.contents, FileRef.copyTo]
    exact hcopies ▸ List.prefix_refl _
  · cases h

theorem links_retry {failed next : Item} {idAt : Nat → String} {now : Time.Timestamp} {o : Order}
    (hfound : s.item? failed.id = some failed) (hnext : failed.retryFrom idAt now = .ok next)
    (hok : retry next s = .ok (o, s')) : s.Links s' := by
  intro h
  obtain ⟨hmem, -⟩ := item?_mem hfound
  obtain ⟨failedId, found, before, hretry, hfound', hstatus, hfree, -, -, hadmits, rfl, -⟩ :=
    retry_ok hok
  refine h.insert rfl hadmits.new ?_
  intro other hother
  obtain rfl : failedId = other := Option.some.inj (hretry.symm.trans hother)
  obtain rfl : failed.id = failedId := by
    rw [(retryFrom_ok hnext).2.2.1] at hretry
    exact Option.some.inj hretry
  obtain rfl : failed = found := Option.some.inj (hfound.symm.trans hfound')
  exact ⟨hfree, failed, hmem, rfl, hstatus, retryFrom_takesOver hnext⟩

/-- A retry takes the slot of the item that it tries again. -/
theorem retry_total {next : Item} {order before : Order} {id : String}
    (hok : retry next s = .ok (order, s')) (hbefore : s.order? id = some before) :
    ∃ after, s'.order? id = some after ∧ after.total = before.total := by
  obtain ⟨-, failed, -, -, -, -, -, -, -, -, hs, -⟩ := retry_ok hok
  have horders : s'.orders = (s.updateOrder failed.orderId reopen).orders := by rw [hs]
  have hafter : s'.order? id =
      if id = failed.orderId then (s.order? failed.orderId).map reopen else s.order? id := by
    rw [← order?_updateOrder reopen_id id, order?, order?, horders]
  by_cases hid : id = failed.orderId
  · subst hid
    rw [if_pos rfl, hbefore] at hafter
    exact ⟨reopen before, hafter, rfl⟩
  · rw [if_neg hid, hbefore] at hafter
    exact ⟨before, hafter, rfl⟩

/-! What chains are like. -/

def Retries (s : Store) (next failed : Item) : Prop :=
  next ∈ s.items ∧ failed ∈ s.items ∧ next.retryOf = some failed.id

/-- An item was put in after the one that it tries again. -/
theorem Linked.idxOf_lt (h : s.Linked) {next failed : Item} (hretries : s.Retries next failed) :
    s.items.idxOf failed < s.items.idxOf next := by
  obtain ⟨hnext, hfailed, hretry⟩ := hretries
  have hnext' := List.idxOf_lt_length_of_mem hnext
  have hfailed' := List.idxOf_lt_length_of_mem hfailed
  rcases Nat.lt_trichotomy (s.items.idxOf failed) (s.items.idxOf next) with hlt | heq | hgt
  · exact hlt
  · have hsame : failed = next := (List.idxOf_inj hfailed).mp heq
    exact absurd (hsame ▸ hretry) (h.other next hnext)
  · have hlater := List.pairwise_iff_getElem.mp h.later _ _ hnext' hfailed' hgt
    rw [List.getElem_idxOf, List.getElem_idxOf] at hlater
    exact absurd hretry hlater

theorem Linked.acyclic (h : s.Linked) (i : Item) : ¬ Relation.TransGen s.Retries i i := by
  have hdescends : ∀ {i j}, Relation.TransGen s.Retries i j →
      s.items.idxOf j < s.items.idxOf i := by
    intro i j htrans
    induction htrans with
    | single hretries => exact h.idxOf_lt hretries
    | tail _ hretries ih => exact Nat.lt_trans (h.idxOf_lt hretries) ih
  exact fun htrans => Nat.lt_irrefl _ (hdescends htrans)

theorem Linked.failed_of_retries (h : s.Linked) {next failed : Item}
    (hretries : s.Retries next failed) : failed.status = .failed := by
  obtain ⟨hnext, hfailed, hretry⟩ := hretries
  obtain ⟨j, hj, hid, hstatus, -⟩ := h.tries next hnext failed.id hretry
  exact h.item_unique hj hfailed hid ▸ hstatus

/-- In a line of tries all but the last one have failed. -/
theorem Linked.failed_of_chain (h : s.Linked) {chain : List Item}
    (hchain : chain.IsChain fun failed next => s.Retries next failed) :
    ∀ i ∈ chain.dropLast, i.status = .failed := by
  induction chain with
  | nil => exact fun i hi => absurd hi List.not_mem_nil
  | cons first rest ih =>
    cases rest with
    | nil => exact fun i hi => absurd hi List.not_mem_nil
    | cons next more =>
      rw [List.isChain_cons_cons] at hchain
      intro i hi
      rcases List.mem_cons.mp hi with rfl | hrest
      · exact h.failed_of_retries hchain.1
      · exact ih hchain.2 i hrest

/-- In an order there are as many retries as items that are tried again. -/
theorem Linked.countOf_retries (h : s.Linked) (order : String) :
    (s.countOf order fun i => i.retryOf.isSome) = s.countOf order fun i => s.isRetried i.id := by
  have hnodup : s.items.Nodup := .of_map _ h.nodup
  have hperm : ((s.items.filter fun i => i.orderId == order && i.retryOf.isSome).map
      (·.retryOf)).Perm ((s.items.filter fun i => i.orderId == order && s.isRetried i.id).map
        fun i => some i.id) := by
    rw [List.perm_ext_iff_of_nodup]
    · intro tried
      simp only [List.mem_map, List.mem_filter, Bool.and_eq_true, beq_iff_eq, isRetried_iff]
      constructor
      · rintro ⟨i, ⟨hi, horder, hsome⟩, rfl⟩
        obtain ⟨failed, hfailed⟩ := Option.isSome_iff_exists.mp hsome
        obtain ⟨j, hj, rfl, -, htakes⟩ := h.tries i hi failed hfailed
        exact ⟨j, ⟨hj, htakes.order ▸ horder, i, hi, hfailed⟩, hfailed.symm⟩
      · rintro ⟨j, ⟨hj, horder, i, hi, hretry⟩, rfl⟩
        obtain ⟨k, hk, hid, -, htakes⟩ := h.tries i hi j.id hretry
        obtain rfl := h.item_unique hk hj hid
        exact ⟨i, ⟨hi, htakes.order.trans horder, by simp [hretry]⟩, hretry⟩
    · refine (hnodup.filter _).map_on ?_
      intro i hi j hj heq
      simp only [List.mem_filter, Bool.and_eq_true] at hi hj
      exact h.item_unique hi.1 hj.1 (h.once i hi.1 j hj.1 hi.2.2 heq)
    · refine (hnodup.filter _).map_on ?_
      intro i hi j hj heq
      exact h.item_unique (List.mem_filter.mp hi).1 (List.mem_filter.mp hj).1 (Option.some.inj heq)
  have hlength := hperm.length_eq
  rwa [List.length_map, List.length_map, ← List.countP_eq_length_filter,
    ← List.countP_eq_length_filter] at hlength

/-- Counting items that are not tried again is counting first tries. -/
theorem Linked.countOf_first (h : s.Linked) (order : String) :
    (s.countOf order fun i => !s.isRetried i.id) = s.countOf order fun i => i.retryOf.isNone := by
  have hsplit : ∀ p : Item → Bool, s.countOf order (fun _ => true) =
      s.countOf order p + s.countOf order fun i => !p i := by
    intro p
    have hall := countP_split (l := s.items) (p := fun i => i.orderId == order && p i)
      (q := fun i => i.orderId == order && !p i) (r := fun i => i.orderId == order && true)
      (w := fun _ => false) fun i _ => by cases i.orderId == order <;> cases p i <;> rfl
    simpa [countOf] using hall
  have hretries := h.countOf_retries order
  have hsome := hsplit fun i => i.retryOf.isSome
  have hretried := hsplit fun i => s.isRetried i.id
  simp only [Option.not_isSome] at hsome
  omega

end Store

end Collate
