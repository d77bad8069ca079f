import Collate.Proofs.Service.Merging
import Collate.Proofs.Service.Notices
import Collate.Proofs.Service.Rollup
import Collate.Proofs.Service.Stranded

/-!
What calls announce. Events are made of orders that were read at different times, some of them
before the operation that an event tells of. Still each one tells how its order stands when it
is announced: between reading the order and announcing it a call changes nothing that an event
tells. Only processing an item and trying it again announce that an item was resolved or is
tried again, once for each.
-/

namespace Collate

/-- Whether a phase tells that an item was resolved or is tried again. -/
def Phase.settles : Phase → Bool
  | .itemCompleted | .itemFailed | .itemRetried => true
  | _ => false

/-- Whether an event tells how an order stands. -/
structure ProgressEvent.Shows (e : ProgressEvent) (o : Order) : Prop where
  id : e.orderId = o.id
  status : e.status = o.status
  total : e.total = o.total
  completed : e.completed = o.completed
  failed : e.failed = o.failed

theorem ProgressEvent.ofOrder_shows (o : Order) (phase : Phase) (message : String) :
    (ProgressEvent.ofOrder o phase message).Shows o := ⟨rfl, rfl, rfl, rfl, rfl⟩

/-- Whether an order has items, and no more of them resolved than it has. -/
structure Order.Measured (o : Order) : Prop where
  pos : 0 < o.total
  le : o.completed + o.failed ≤ o.total

/-- Whether an event tells how its order stood in the store when it was announced. -/
def Notice.Holds (n : Notice) : Prop :=
  ∃ o, n.store.order? n.event.orderId = some o ∧ n.event.Shows o ∧ o.Measured

/-- A notice that holds, and tells of no item that was resolved or is tried again. -/
structure Notice.Plain (n : Notice) : Prop where
  holds : n.Holds
  phase : n.event.phase.settles = false

/-- An order that is in the store now stands as one that was read before. -/
theorem Notice.holds_of {e : ProgressEvent} {s : Store} {o p : Order} (he : e.Shows o)
    (hp : s.order? o.id = some p) (hsame : p.status = o.status ∧ p.total = o.total ∧
      p.completed = o.completed ∧ p.failed = o.failed) (ho : o.Measured) :
    (⟨e, s⟩ : Notice).Holds := by
  obtain ⟨hstatus, htotal, hcompleted, hfailed⟩ := hsame
  refine ⟨p, ?_, ?_, ?_⟩
  · rw [he.id]
    exact hp
  · exact ⟨he.id.trans (Store.order?_mem hp).2.symm, he.status.trans hstatus.symm,
      he.total.trans htotal.symm, he.completed.trans hcompleted.symm,
      he.failed.trans hfailed.symm⟩
  · exact ⟨htotal ▸ ho.pos, by rw [hcompleted, hfailed, htotal]; exact ho.le⟩

namespace Store

variable {s : Store} {o : Order}

/-- An order that was sent off has items. -/
theorem Balanced.measured (h : s.Balanced) (hfilled : s.Filled) {id : String}
    (ho : s.order? id = some o) (hsent : o.status ≠ .draft) : o.Measured :=
  ⟨hfilled id o ho hsent, h.resolved_le (order?_mem ho).1⟩

/-- So has one with an open item. -/
theorem Balanced.measured_of_open (h : s.Balanced) {i : Item} (hi : i ∈ s.items)
    (ho : s.order? i.orderId = some o) (hopen : i.status.isFinal = false) : o.Measured := by
  obtain ⟨hmem, hid⟩ := order?_mem ho
  have hpos : 0 < s.countOf o.id fun i => !i.status.isFinal := by
    rw [countOf, List.countP_pos_iff]
    exact ⟨i, hi, by simp [hid, hopen]⟩
  have htotal := h.total_eq hmem
  exact ⟨by omega, h.resolved_le hmem⟩

end Store

namespace Service

open Procedure

variable {policy : Policy} {d : Desk} {n : Notice}

theorem mem_notices_announce {event : ProgressEvent}
    (hn : n ∈ (announce policy event).notices d) : n = ⟨event, d.store⟩ := by
  by_cases hpolicy : policy.announces = true
  · rw [notices_announce hpolicy, List.mem_singleton] at hn
    exact hn
  · rw [announce, if_neg hpolicy] at hn
    cases hn

/-- An order that is read when it is announced is shown as it stands. -/
theorem announceOrder_plain {id message : String} {phase : Phase}
    (hphase : phase.settles = false)
    (hmeasured : ∀ o, d.store.order? id = some o → o.Measured)
    (hn : n ∈ (announceOrder policy id phase message).notices d) : n.Plain := by
  unfold announceOrder at hn
  split at hn
  · obtain ⟨o, d', hrun, hlast⟩ := (Mute.of (.order id)).mem_notices_bind hn
    obtain ⟨ho, rfl⟩ := order_ok hrun
    obtain ⟨-, rfl⟩ := Store.order?_mem ho
    rw [mem_notices_announce hlast]
    exact ⟨⟨o, ho, ProgressEvent.ofOrder_shows o phase message, hmeasured o ho⟩, hphase⟩
  · cases hn

/-! Sending off and rolling up. -/

theorem submit_plain (h : d.store.Balanced) {order : String}
    (hn : n ∈ (submit policy order).notices d) : n.Plain := by
  unfold submit at hn
  obtain ⟨pending, e, hstore, hn⟩ := (Mute.store _).mem_notices_bind hn
  obtain ⟨o, ho, -, htotal, -, hs⟩ := Store.submit_ok (store_ok hstore)
  rw [notices_bind_pure] at hn
  refine announceOrder_plain rfl ?_ hn
  intro p hp
  rw [hs, Store.order?_updateOrder, if_pos rfl, ho] at hp
  · cases hp
    have hle : o.completed + o.failed ≤ o.total := h.resolved_le (Store.order?_mem ho).1
    exact ⟨Nat.pos_of_ne_zero htotal, hle⟩
  · exact fun _ => rfl

theorem rollup_plain {id : String} (hn : n ∈ (rollup policy id).notices d) : n.Plain := by
  unfold rollup at hn
  obtain ⟨o, d', hrun, hn⟩ := (Mute.of (.order id)).mem_notices_bind hn
  obtain ⟨ho, rfl⟩ := order_ok hrun
  obtain ⟨-, rfl⟩ := Store.order?_mem ho
  split at hn
  · cases hn
  · obtain ⟨items, d', hlook, hn⟩ := (Mute.of (.look _)).mem_notices_bind hn
    extract_lets completed finish at hn
    -- the order that a roll-up moves stands as the one it was decided on
    have hfinish : ∀ resolvable e, n ∈ (finish resolvable).notices e → n.Plain := by
      intro resolvable e hn
      simp only [finish] at hn
      split at hn
      · cases hn
      · rename_i target htarget
        obtain ⟨moved, e', hstore, hn⟩ := (Mute.store _).mem_notices_bind hn
        obtain ⟨-, -, ⟨rfl, p, hp, hstands, hs⟩ | ⟨rfl, -⟩⟩ := Store.rollUp_ok (store_ok hstore)
        · rw [if_pos rfl, notices_bind_pure] at hn
          refine announceOrder_plain rfl ?_ hn
          intro q hq
          rw [hs, Store.order?_updateOrder, if_pos rfl, hp] at hq
          · cases hq
            obtain ⟨-, ⟨htotal, -, -⟩, hresolved⟩ := Store.standsAs_iff.mp hstands
            have hpos : 0 < o.total := (RollupFacts.target?_eq_some htarget).1
            exact ⟨htotal ▸ hpos, Nat.le_of_eq hresolved⟩
          · exact fun _ => rfl
        · cases hn
    split at hn
    · exact hfinish _ _ hn
    · obtain ⟨resolvable, e, -, hn⟩ := (Mute.of (anyPlan_performs completed)).mem_notices_bind hn
      exact hfinish resolvable e hn

/-! Processing. -/

section Processing

variable (hpolicy : policy.announces = true)

include hpolicy

theorem resolution_notices (id : String) {s : Store} {resolved : Item} {after : Order}
    {result : Except OrderFault Item} (hresult : result = .ok resolved)
    (hresolve : Store.resolve resolved d.store = .ok (after, s)) : ∃ rest,
      (resolution policy id result).notices d = ⟨resolutionEvent after id resolved, s⟩ :: rest ∧
        ∀ n ∈ rest, n.Plain := by
  have hneed : (need (result.mapError ServiceFault.order)).run d = (.ok resolved, d) := by
    rw [run_need, hresult]
    rfl
  obtain ⟨events, hannounce⟩ := run_announce policy (resolutionEvent after id resolved)
    { d with store := s }
  rw [resolution, (Mute.of (.need _)).notices_bind hneed,
    (Mute.store _).notices_bind (run_store_ok hresolve), notices_bind, notices_announce hpolicy,
    hannounce]
  refine ⟨_, rfl, fun n hn => ?_⟩
  dsimp only at hn
  split at hn
  · rw [notices_bind_pure] at hn
    exact rollup_plain hn
  · cases hn

/-- Processing a pending item announces that it began, what it came to, and perhaps that its
order was rolled up. -/
theorem processItem_notices (h : d.store.Tidy) {i : Item} {o : Order}
    (hfound : d.store.item? i.id = some i) (hpending : i.status = .pending)
    (ho : d.store.order? i.orderId = some o) :
    ∃ rest, (processItem policy i.id).notices d =
      ⟨.ofItem o i.id .itemStarted "Extracting item", d.store.begun i.id d.clock⟩ ::
        ⟨resolutionEvent (Store.countResolution (i.judged d.clock
            (examination policy d.disk i o.mappingKeys d.calls).verdict).status o) i.id
          (i.judged d.clock (examination policy d.disk i o.mappingKeys d.calls).verdict),
          d.store.settleItem
            (i.judged d.clock (examination policy d.disk i o.mappingKeys d.calls).verdict)
            (examination policy d.disk i o.mappingKeys d.calls).results⟩ :: rest ∧
        ∀ n ∈ rest, n.Plain := by
  let ex := examination policy d.disk i o.mappingKeys d.calls
  let begun : Desk := { d with store := d.store.begun i.id d.clock }
  obtain ⟨events, hannounce⟩ := run_announce policy
    (ProgressEvent.ofItem o i.id .itemStarted "Extracting item") begun
  obtain ⟨hbegin, horder, hexamine⟩ := begin_examine_run policy h hfound hpending ho events
  obtain ⟨hresolve, -⟩ := h.resolve_judged hfound hpending ho d.clock ex.verdict ex.results
  obtain ⟨rest, hrest, hplain⟩ :=
    resolution_notices (d := examinedDesk policy d i o events) hpolicy i.id
      (i.started_judged d.clock ex.verdict) hresolve
  refine ⟨rest, ?_, hplain⟩
  rw [processItem, (Mute.of .now).notices_bind (run_now d), (Mute.store _).notices_bind hbegin]
  dsimp only
  rw [(Mute.of (.order _)).notices_bind horder, notices_bind, notices_announce hpolicy, hannounce]
  dsimp only
  have hmute : ∀ item keys, (examine policy item keys).Mute := by
    intro item keys
    have hperforms : (examine policy item keys).Performs (fun _ => True) False :=
      examine_performs policy item keys fun _ _ _ => trivial
    exact hperforms.mute not_false
  rw [(hmute _ _).notices_bind hexamine, (Mute.of .now).notices_bind (run_now _)]
  exact congrArg (_ :: ·) hrest

end Processing

/-! Retrying. -/

/-- A retry that is accepted is announced once, with its order as it is now. -/
theorem retryItem_notices (hpolicy : policy.announces = true) (id : String) :
    ((retryItem policy id).notices d = [] ∧ ((retryItem policy id).run d).2.store = d.store) ∨
      ∃ failed next idAt now o, d.store.item? failed.id = some failed ∧
        failed.retryFrom idAt now = .ok next ∧
        Store.retry next d.store = .ok (o, ((retryItem policy id).run d).2.store) ∧
        (retryItem policy id).notices d =
          [⟨.ofItem o next.id .itemRetried "Item queued for retry",
            ((retryItem policy id).run d).2.store⟩] := by
  cases hfound : d.store.item? id with
  | none =>
    have hitem : (Procedure.item id).run d = (.error (.order (.itemNotFound id)), d) := by
      rw [run_item, Store.item, hfound]
      rfl
    left
    rw [retryItem, (Mute.of (.item id)).notices_bind_error hitem, run_bind, hitem]
    exact ⟨rfl, rfl⟩
  | some failed =>
    obtain ⟨-, rfl⟩ := Store.item?_mem hfound
    have hitem : (Procedure.item failed.id).run d = (.ok failed, d) := by
      rw [run_item, Store.item_eq_ok.mpr hfound]
      rfl
    rw [retryItem, (Mute.of (.item _)).notices_bind hitem,
      (Mute.of (.newIds _)).notices_bind (run_newIds _ _),
      (Mute.of .now).notices_bind (run_now _), run_bind_ok hitem, run_bind_ok (run_newIds _ _),
      run_bind_ok (run_now _)]
    let numbered : Desk := { d with ids := d.ids + (failed.files.length + 1) }
    cases hnext : failed.retryFrom (fun n => Desk.idOf (d.ids + n)) d.clock with
    | error fault =>
      have hneed : (need ((Except.error fault : Except OrderFault Item).mapError
          ServiceFault.order)).run numbered = (.error (.order fault), numbered) := rfl
      left
      rw [(Mute.of (.need _)).notices_bind_error hneed, run_bind, hneed]
      exact ⟨rfl, rfl⟩
    | ok next =>
      have hneed : (need ((Except.ok next : Except OrderFault Item).mapError
          ServiceFault.order)).run numbered = (.ok next, numbered) := rfl
      rw [(Mute.of (.need _)).notices_bind hneed, run_bind_ok hneed]
      cases hok : Store.retry next d.store with
      | error fault =>
        have hrefused := run_store_error (d := numbered) hok
        left
        rw [(Mute.store _).notices_bind_error hrefused, run_bind, hrefused]
        exact ⟨rfl, rfl⟩
      | ok result =>
        obtain ⟨o, s⟩ := result
        have hretried := run_store_ok (d := numbered) hok
        obtain ⟨events, hannounce⟩ := run_announce policy
          (ProgressEvent.ofItem o next.id .itemRetried "Item queued for retry")
          { numbered with store := s }
        refine Or.inr ⟨failed, next, _, _, o, hfound, hnext, ?_⟩
        rw [(Mute.store _).notices_bind hretried, run_bind_ok hretried, notices_bind_pure,
          notices_announce hpolicy, run_bind_ok hannounce]
        exact ⟨hok, rfl⟩

/-! Merging and exporting. -/

/-- Changes to an order that leave its counters alone do not change whether it has items. -/
theorem measured_updateOrder {s : Store} {id : String} {change : Order → Order}
    (hsame : ∀ o, (change o).id = o.id ∧ (change o).total = o.total ∧
      (change o).completed = o.completed ∧ (change o).failed = o.failed)
    (h : ∀ o, s.order? id = some o → o.Measured) :
    ∀ o, (s.updateOrder id change).order? id = some o → o.Measured := by
  intro o ho
  rw [Store.order?_updateOrder (fun o => (hsame o).1), if_pos rfl] at ho
  obtain ⟨before, hbefore, rfl⟩ := Option.map_eq_some_iff.mp ho
  obtain ⟨-, htotal, hcompleted, hfailed⟩ := hsame before
  obtain ⟨hpos, hle⟩ := h before hbefore
  exact ⟨htotal ▸ hpos, by rw [hcompleted, hfailed, htotal]; exact hle⟩

theorem keepMerged_plain {o : Order} {merged : Merged}
    (hmeasured : ∀ p, d.store.order? o.id = some p → p.Measured)
    (hn : n ∈ (keepMerged policy o merged).notices d) : n.Plain := by
  unfold keepMerged at hn
  obtain ⟨u, e, hsave, hn⟩ := (Mute.store _).mem_notices_bind hn
  obtain ⟨-, hsaved⟩ := Store.saveMerged_ok (store_ok hsave)
  obtain ⟨u', e', hnote, hn⟩ := (Mute.store _).mem_notices_bind hn
  have hthere : ∀ p, e'.store.order? o.id = some p → p.Measured := by
    rw [Store.noteError_ok (store_ok hnote)]
    refine measured_updateOrder (fun _ => ⟨rfl, rfl, rfl, rfl⟩) ?_
    rw [hsaved]
    exact hmeasured
  split at hn
  · obtain ⟨moved, e'', hmove, hn⟩ := (Mute.store _).mem_notices_bind hn
    refine announceOrder_plain rfl ?_ hn
    obtain ⟨-, ⟨-, -, -, -, hs⟩ | ⟨-, hs⟩⟩ := Store.moveOrder_ok (store_ok hmove)
    · rw [hs]
      exact measured_updateOrder (fun _ => ⟨rfl, rfl, rfl, rfl⟩) hthere
    · rw [hs]
      exact hthere
  · exact announceOrder_plain rfl hthere hn

/-- Whether a merge is kept or fails, the order had items when it admitted the merge. -/
theorem runMerge_plain (h : d.store.Balanced) (hfilled : d.store.Filled) {id : String}
    (hn : n ∈ (runMerge policy id).notices d) : n.Plain := by
  unfold runMerge at hn
  obtain ⟨o, d', hrun, hn⟩ := (Mute.of (.order id)).mem_notices_bind hn
  obtain ⟨ho, rfl⟩ := order_ok hrun
  obtain ⟨rerun, e, hrerun, hn⟩ := (Mute.of (isRerun_performs o)).mem_notices_bind hn
  rw [isRerun_run, Prod.mk.injEq, Except.ok.injEq] at hrerun
  obtain ⟨hrerun, rfl⟩ := hrerun
  extract_lets noted finish at hn
  have hfinish : o.status ≠ .draft → ∀ u, n ∈ (finish u).notices d → n.Plain := by
    intro hsent u hn
    have hmeasured := h.measured hfilled ho hsent
    obtain ⟨-, rfl⟩ := Store.order?_mem ho
    have hmute : (buildMerged policy o).attempt.Mute :=
      (Mute.of (buildMerged_performs policy o)).attempt
    obtain ⟨built, e, hbuild, hn⟩ := hmute.mem_notices_bind hn
    rw [run_attempt, buildMerged_run, Prod.mk.injEq] at hbuild
    obtain ⟨-, rfl⟩ := hbuild
    split at hn
    · rw [notices_bind_pure] at hn
      refine keepMerged_plain (fun p hp => ?_) hn
      obtain rfl : o = p := Option.some.inj (ho.symm.trans hp)
      exact hmeasured
    · rename_i fault
      obtain ⟨u', e', hnote, hn⟩ := (Mute.store _).mem_notices_bind hn
      rw [notices_bind_mute _ fun _ => Mute.of (.need _)] at hn
      rw [mem_notices_announce hn, Store.noteError_ok (store_ok hnote)]
      have hthere : (d.store.updateOrder o.id fun p =>
          { p with error := some fault.message }).order? o.id =
            some { o with error := some fault.message } := by
        rw [Store.order?_updateOrder, if_pos rfl, ho]
        · rfl
        · exact fun _ => rfl
      refine ⟨Notice.holds_of ?_ hthere ⟨rfl, rfl, rfl, rfl⟩ hmeasured, rfl⟩
      exact ⟨rfl, rfl, rfl, rfl, rfl⟩
  split at hn
  · obtain ⟨u, e, hneed, hn⟩ := (Mute.of (.need _)).mem_notices_bind hn
    obtain ⟨hrequire, rfl⟩ := need_ok hneed
    have hmapping : o.status = .mapping := by
      simpa using Order.require_eq_ok.mp hrequire
    exact hfinish (by simp [hmapping]) u hn
  · rename_i hagain
    rw [← hrerun] at hagain
    have hcompleted : o.status = .completed := by
      simp only [Bool.not_eq_true, Bool.not_eq_false', Bool.and_eq_true, beq_iff_eq] at hagain
      exact hagain.1
    exact hfinish (by simp [hcompleted]) () hn

theorem mergedTable_ok {id : String} {merged : Merged} {e : Desk}
    (h : (mergedTable id).run d = (.ok merged, e)) :
    d.store.merged.contains id = true ∧ d = e := by
  unfold mergedTable at h
  rw [run_bind_ok (run_look _ _)] at h
  cases hget : d.store.merged.get? id with
  | none =>
    rw [hget] at h
    cases h
  | some table =>
    rw [hget] at h
    cases h
    exact ⟨by rw [Dict.contains, hget]; rfl, rfl⟩

theorem exportReport_plain {id : String}
    (hmeasured : d.store.merged.contains id = true →
      ∀ o, d.store.order? id = some o → o.Measured)
    (hn : n ∈ (exportReport policy id).notices d) : n.Plain := by
  unfold exportReport at hn
  obtain ⟨o, d', hrun, hn⟩ := (Mute.of (.order id)).mem_notices_bind hn
  obtain ⟨ho, rfl⟩ := order_ok hrun
  obtain ⟨merged, d', htable, hn⟩ := (Mute.of (mergedTable_performs id)).mem_notices_bind hn
  obtain ⟨hmerged, rfl⟩ := mergedTable_ok htable
  have hwhole := hmeasured hmerged o ho
  obtain ⟨-, rfl⟩ := Store.order?_mem ho
  obtain ⟨reference, e, hwrite, hn⟩ := (Mute.of (.writeBlob policy _ _ _)).mem_notices_bind hn
  obtain ⟨disk, -, rfl⟩ := writeBlob_ok hwrite
  obtain ⟨u, e, hset, hn⟩ := (Mute.store _).mem_notices_bind hn
  rw [notices_bind_pure] at hn
  rw [mem_notices_announce hn, Store.setReportPaths_ok (store_ok hset)]
  have hthere : (d.store.updateOrder o.id fun p =>
      { p with reportPaths := o.reportPaths ++ [reference] }).order? o.id =
        some { o with reportPaths := o.reportPaths ++ [reference] } := by
    rw [Store.order?_updateOrder, if_pos rfl, ho]
    · rfl
    · exact fun _ => rfl
  have hshows := ProgressEvent.ofOrder_shows o .reportExported reference
  exact ⟨Notice.holds_of hshows hthere ⟨rfl, rfl, rfl, rfl⟩ hwhole, rfl⟩

end Service

end Collate
