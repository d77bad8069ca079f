import Collate.Proofs.Store.Change
import Collate.Proofs.Store.Settled
import Mathlib.Logic.Relation

/-!
The counters of orders in any run, however careless its caller. Copies that were
carried through before they are handed over leave counters that are off, but
never so that an order looks resolved while one of its items is open: no more
items are counted as completed than are, and an item that has no slot of its own
is outweighed by a failed one that was tried again.
-/

namespace Collate.Store

variable {s s' : Store} {before after o : Order}

/-- Bounds on the counters of an order by its items. -/
structure Bounded (s : Store) (o : Order) : Prop where
  completed : o.completed ≤ s.countOf o.id fun i => i.status == .completed
  resolved : o.failed + s.countOf o.id (fun _ => true) ≤
    o.total + s.countOf o.id fun i => i.status == .failed
  tried : s.countOf o.id (fun _ => true) ≤
    o.total + s.countOf o.id fun i => i.status == .failed && s.isRetried i.id

structure Roomy (s : Store) : Prop extends Keyed s where
  bounded : ∀ o ∈ s.orders, s.Bounded o

theorem empty_roomy : Store.empty.Roomy := by
  refine ⟨empty_keyed, ?_⟩
  simp [Store.empty]

/-- An order all of whose slots are taken has no open item, and as many
completed ones as it counts. -/
theorem Bounded.of_resolved (h : s.Bounded o) (hresolved : o.completed + o.failed = o.total) :
    (∀ i ∈ s.items, i.orderId = o.id → i.status.isFinal = true) ∧
      o.completed = s.countOf o.id fun i => i.status == .completed := by
  obtain ⟨hcompleted, hslots, -⟩ := h
  have hsplit : s.countOf o.id (fun _ => true) =
      s.countOf o.id (fun i => i.status == .completed) +
        s.countOf o.id (fun i => i.status == .failed) +
        s.countOf o.id (fun i => !i.status.isFinal) := by
    apply countP_split
    intro i _
    cases i.orderId == o.id with
    | false => simp
    | true => cases hcase : i.status <;> simp [hcase, ItemStatus.isFinal]
  have hopen : s.countOf o.id (fun i => !i.status.isFinal) = 0 := by omega
  refine ⟨?_, by omega⟩
  intro i hi horder
  simpa using countOf_eq_zero_iff.mp hopen i hi horder

/-! One change. -/

theorem Bounded.of_items (h : s.Bounded before) (hitems : s'.items = s.items)
    (hid : after.id = before.id) (hsame : after.total = before.total ∧
      after.completed = before.completed ∧ after.failed = before.failed) : s'.Bounded after := by
  obtain ⟨htotal, hcompleted, hfailed⟩ := hsame
  obtain ⟨h1, h2, h3⟩ := h
  refine ⟨?_, ?_, ?_⟩
  · rw [hcompleted, hid, countOf_of_items hitems]
    exact h1
  · rw [hfailed, htotal, hid, countOf_of_items hitems, countOf_of_items hitems]
    exact h2
  · simp only [htotal, hid, countOf_of_items hitems, isRetried_of_items hitems]
    exact h3

/-- One more item makes no difference to what is tried again, or adds to it. -/
theorem countOf_retried_insert {item : Item} (hitems : s'.items = s.items ++ [item])
    (order : String) :
    s.countOf order (fun i => i.status == .failed && s.isRetried i.id) ≤
      s'.countOf order fun i => i.status == .failed && s'.isRetried i.id := by
  rw [countOf_insert hitems]
  refine Nat.le_add_right_of_le (List.countP_mono_left ?_)
  intro i _ hi
  simp only [isRetried_insert hitems, Bool.and_eq_true] at hi ⊢
  exact ⟨hi.1, hi.2.1, by simp [hi.2.2]⟩

theorem Bounded.added {item : Item} (h : s.Bounded before) (hpending : item.status = .pending)
    (hitems : s'.items = s.items ++ [item]) (hid : after.id = before.id)
    (htotal : after.total = before.total + (item.orderId == before.id).toNat)
    (hsame : after.completed = before.completed ∧ after.failed = before.failed) :
    s'.Bounded after := by
  obtain ⟨hcompleted, hfailed⟩ := hsame
  obtain ⟨h1, h2, h3⟩ := h
  have hopen : (item.status == .completed) = false ∧ (item.status == .failed) = false := by
    simp [hpending]
  have hretried := countOf_retried_insert hitems before.id
  refine ⟨?_, ?_, ?_⟩
  · rw [hcompleted, hid, countOf_insert hitems]
    omega
  · simp only [hfailed, htotal, hid, countOf_insert hitems, hopen, Bool.and_true, Bool.and_false,
      Bool.toNat_false]
    omega
  · rw [htotal, hid, countOf_insert hitems, Bool.and_true]
    omega

theorem Bounded.worked {i : Item} {change : Item → Item} (h : s.Bounded o)
    (hnodup : (s.items.map (·.id)).Nodup) (hi : i ∈ s.items) (hkeeps : KeepsPlace change)
    (hopen : i.status.isFinal = false) (hstays : (change i).status.isFinal = false) :
    (s.updateItem i.id change).Bounded o := by
  have hneither : ∀ j : Item, j.status.isFinal = false →
      (j.status == .completed) = false ∧ (j.status == .failed) = false := by
    intro j hj
    cases hcase : j.status <;> simp_all [ItemStatus.isFinal]
  have hcount := countOf_updateItem hnodup hkeeps hi o.id
  have hcountAll := hcount fun _ => true
  have hcountCompleted := hcount fun j => j.status == .completed
  have hcountFailed := hcount fun j => j.status == .failed
  have hcountTried := hcount fun j => j.status == .failed && s.isRetried j.id
  simp only [hneither i hopen, hneither _ hstays, Bool.and_false, Bool.false_and, Bool.and_true,
    Bool.toNat_false, Nat.add_zero] at hcountAll hcountCompleted hcountFailed hcountTried
  obtain ⟨h1, h2, h3⟩ := h
  refine ⟨?_, ?_, ?_⟩
  · omega
  · omega
  · simp only [isRetried_updateItem hkeeps]
    omega

theorem Bounded.settled {i held : Item} (h : s.Bounded before)
    (hnodup : (s.items.map (·.id)).Nodup) (hi : i ∈ s.items) (hprocessing : i.status = .processing)
    (hid : after.id = before.id) (htotal : after.total = before.total)
    (hcompleted : after.completed =
      before.completed + (i.orderId == before.id && held.status == .completed).toNat)
    (hfailed : after.failed =
      before.failed + (i.orderId == before.id && held.status == .failed).toNat) :
    (s.updateItem i.id (settle held)).Bounded after := by
  have hopen : (i.status == .completed) = false ∧ (i.status == .failed) = false := by
    simp [hprocessing]
  have hcount := countOf_updateItem hnodup (settle_keeps held) hi before.id
  have hcountAll := hcount fun _ => true
  have hcountCompleted := hcount fun j => j.status == .completed
  have hcountFailed := hcount fun j => j.status == .failed
  have hcountTried := hcount fun j => j.status == .failed && s.isRetried j.id
  simp only [settle, hopen, Bool.and_false, Bool.false_and, Bool.and_true, Bool.toNat_false,
    Nat.add_zero] at hcountAll hcountCompleted hcountFailed hcountTried
  obtain ⟨h1, h2, h3⟩ := h
  refine ⟨?_, ?_, ?_⟩
  · rw [hcompleted, hid, hcountCompleted]
    omega
  · rw [hfailed, htotal, hid, hcountFailed]
    omega
  · simp only [htotal, hid, isRetried_updateItem (settle_keeps held)]
    omega

/-- The failed item that is tried again leaves the ones that are not. -/
theorem countOf_retried_retry {next failed : Item} (hnodup : (s.items.map (·.id)).Nodup)
    (hfailed : failed ∈ s.items) (hstatus : failed.status = .failed)
    (hfree : s.isRetried failed.id = false) (hretry : next.retryOf = some failed.id)
    (hitems : s'.items = s.items ++ [next]) (order : String) :
    s.countOf order (fun i => i.status == .failed && s.isRetried i.id) +
        (failed.orderId == order).toNat =
      s.countOf order fun i => i.status == .failed && s'.isRetried i.id := by
  have hoff := countP_agree_off hnodup hfailed
    (p := fun i => i.orderId == order && (i.status == .failed && s.isRetried i.id))
    (q := fun i => i.orderId == order && (i.status == .failed && s'.isRetried i.id))
    (by
      intro other _ hother
      have hbeq : (failed.id == other.id) = false := by simpa using Ne.symm hother
      simp [isRetried_insert hitems, hretry, hbeq])
  have hnow : s'.isRetried failed.id = true := by
    simp [isRetried_insert hitems, hretry]
  simp only [hfree, hnow, hstatus, beq_self_eq_true, Bool.and_false, Bool.and_true,
    Bool.toNat_false, Nat.add_zero] at hoff
  rw [countOf, countOf, hoff]

theorem Bounded.retried {next failed : Item} (h : s.Bounded before)
    (hnodup : (s.items.map (·.id)).Nodup) (hfailed : failed ∈ s.items)
    (hstatus : failed.status = .failed) (hfree : s.isRetried failed.id = false)
    (hretry : next.retryOf = some failed.id) (hplace : failed.orderId = next.orderId)
    (hitems : s'.items = s.items ++ [next]) (hid : after.id = before.id)
    (hsame : after.total = before.total ∧ after.completed = before.completed)
    (hreleased : after.failed = before.failed - (next.orderId == before.id).toNat) :
    s'.Bounded after := by
  obtain ⟨htotal, hcompleted⟩ := hsame
  obtain ⟨h1, h2, h3⟩ := h
  have htried := countOf_retried_retry hnodup hfailed hstatus hfree hretry hitems before.id
  rw [hplace] at htried
  have hamong : s.countOf before.id (fun i => i.status == .failed && s'.isRetried i.id) ≤
      s.countOf before.id fun i => i.status == .failed := by
    refine List.countP_mono_left ?_
    intro i _ hi
    simp only [Bool.and_eq_true] at hi ⊢
    exact ⟨hi.1, hi.2.1⟩
  refine ⟨?_, ?_, ?_⟩
  · rw [hcompleted, hid, countOf_insert hitems]
    omega
  · -- a slot is released, or the failed items outweigh the missing slots
    rw [hreleased, htotal, hid, countOf_insert hitems, countOf_insert hitems, Bool.and_true]
    omega
  · rw [htotal, hid, countOf_insert hitems, countOf_insert hitems, Bool.and_true]
    omega

theorem Roomy.change (h : s.Roomy) (hchange : s.Change s') : s'.Roomy := by
  refine ⟨h.toKeyed.change hchange, ?_⟩
  intro after hafter
  cases hchange with
  | same horders hitems =>
    rw [horders] at hafter
    exact (h.bounded after hafter).of_items hitems rfl ⟨rfl, rfl, rfl⟩
  | @created o hnew hzero horders hitems =>
    rw [horders, List.mem_append, List.mem_singleton] at hafter
    rcases hafter with hold | rfl
    · exact (h.bounded after hold).of_items hitems rfl ⟨rfl, rfl, rfl⟩
    · -- no item is in the new order yet
      obtain ⟨htotal, hcompleted, hfailed⟩ := hzero
      have hnone : ∀ p, s'.countOf after.id p = 0 := by
        intro p
        rw [countOf_eq_zero_iff, hitems]
        intro i hi horder
        obtain ⟨p, hp, hid⟩ := List.mem_map.mp (h.placed i hi)
        exact absurd (hid.trans horder) (order?_eq_none.mp hnew p hp)
      refine ⟨?_, ?_, ?_⟩
      · rw [hcompleted]
        exact Nat.zero_le _
      · rw [hfailed, hnone]
        omega
      · rw [hnone]
        exact Nat.zero_le _
  | retouched hchange horders hitems =>
    rw [horders] at hafter
    obtain ⟨before, hbefore, ⟨hhere, rfl⟩ | ⟨-, rfl⟩⟩ := updateOrder_cases hafter
    · have hsame := hchange before hbefore hhere
      exact (h.bounded before hbefore).of_items hitems hsame.id hsame.counters
    · exact (h.bounded _ hbefore).of_items hitems rfl ⟨rfl, rfl, rfl⟩
  | added hnew horder hpending horders hitems =>
    rw [horders] at hafter
    obtain ⟨before, hbefore, ⟨hhere, rfl⟩ | ⟨hhere, rfl⟩⟩ := updateOrder_cases hafter
    · exact (h.bounded before hbefore).added hpending hitems rfl (by simp [hhere]) ⟨rfl, rfl⟩
    · exact (h.bounded _ hbefore).added hpending hitems rfl (by simp [Ne.symm hhere]) ⟨rfl, rfl⟩
  | worked hi hkeeps hopen hstays horders hitems =>
    rw [horders] at hafter
    have hbounded := (h.bounded after hafter).worked h.items_nodup hi hkeeps hopen hstays
    exact hbounded.of_items hitems rfl ⟨rfl, rfl, rfl⟩
  | @resolved i held hi hid hprocessing hfinal horders hitems =>
    rw [horders] at hafter
    have hbounded : (s.updateItem i.id (settle held)).Bounded after := by
      obtain ⟨before, hbefore, ⟨hhere, rfl⟩ | ⟨hhere, rfl⟩⟩ := updateOrder_cases hafter
      · obtain ⟨hsame, htotal, hcompleted, hfailed⟩ := countResolution_counters held.status before
        exact (h.bounded before hbefore).settled h.items_nodup hi hprocessing hsame htotal
          (by simp [hcompleted, hhere]) (by simp [hfailed, hhere])
      · exact (h.bounded _ hbefore).settled h.items_nodup hi hprocessing rfl rfl
          (by simp [Ne.symm hhere]) (by simp [Ne.symm hhere])
    exact hbounded.of_items hitems rfl ⟨rfl, rfl, rfl⟩
  | retried hfailed hstatus hfree hretry hplace hnew horders hitems =>
    rw [horders] at hafter
    obtain ⟨before, hbefore, ⟨hhere, rfl⟩ | ⟨hhere, rfl⟩⟩ := updateOrder_cases hafter
    · exact (h.bounded before hbefore).retried h.items_nodup hfailed hstatus hfree hretry hplace
        hitems (reopen_id before) ⟨rfl, rfl⟩ (by simp [reopen, releaseFailed, hhere])
    · exact (h.bounded _ hbefore).retried h.items_nodup hfailed hstatus hfree hretry hplace
        hitems rfl ⟨rfl, rfl⟩ (by simp [beq_eq_false_iff_ne.mpr (Ne.symm hhere)])

/-! Runs. -/

theorem Run.fitting {b : Bench} {past : List (Store × Call)} (h : Run b past) {c : Call}
    (hheld : ∀ item, c.handed? = some item → item ∈ b.held) :
    ∀ item, c.handed? = some item → Fitting b.store item :=
  fun item hitem => h.kept.fitting (hheld item hitem)

/-- A call changes a store in one of the ways listed, or not at all. -/
theorem Call.after_change {c : Call} (h : s.Keyed)
    (hfitting : ∀ item, c.handed? = some item → Fitting s item) : s.Change (c.after s) := by
  unfold Call.after
  split
  · rename_i s' hok
    exact Call.change h hfitting hok
  · exact .same rfl rfl

theorem Run.roomy {b : Bench} {past : List (Store × Call)} (h : Run b past) : b.store.Roomy := by
  induction h with
  | start => exact empty_roomy
  | make _ _ ih => exact ih
  | call c hrun hheld ih => exact ih.change (Call.after_change ih.toKeyed (hrun.fitting hheld))

inductive Bench.Step : Bench → Bench → Prop
  | make {b : Bench} {item : Item} (hmakes : b.Makes item) :
      b.Step { b with held := item :: b.held }
  | call {b : Bench} (c : Call) (hheld : ∀ item, c.handed? = some item → item ∈ b.held) :
      b.Step { b with store := c.after b.store }

abbrev Bench.LeadsTo : Bench → Bench → Prop := Relation.ReflTransGen Bench.Step

variable {b b' : Bench} {past : List (Store × Call)}

theorem Run.step (h : Run b past) (hstep : b.Step b') :
    (∃ past', Run b' past') ∧ b.store.Frozen b'.store := by
  cases hstep with
  | make hmakes => exact ⟨⟨_, h.make hmakes⟩, Frozen.refl _⟩
  | call c hheld =>
    have hkeyed := h.roomy.toKeyed
    exact ⟨⟨_, h.call c hheld⟩, hkeyed.frozen (Call.after_change hkeyed (h.fitting hheld))⟩

/-- However a run goes on, final items and the keys of orders sent off stay. -/
theorem Run.leadsTo (h : Run b past) (hon : b.LeadsTo b') :
    (∃ past', Run b' past') ∧ b.store.Frozen b'.store := by
  induction hon with
  | refl => exact ⟨⟨past, h⟩, Frozen.refl _⟩
  | tail _ hstep ih =>
    obtain ⟨⟨past', hrun⟩, hfrozen⟩ := ih
    obtain ⟨hrun', hfrozen'⟩ := hrun.step hstep
    exact ⟨hrun', hfrozen.trans hfrozen'⟩

end Collate.Store
