import Collate.Proofs.Service.Calls

/-!
Calls as sequences of operations. Whatever a call does to the store it does by
operations of the store, each of which takes place or not. So a relation that
gathers, and that holds from before an operation to after it, holds from before a
call to after it, however the call ends. Processing is kept apart: its operations
are the only ones that start and resolve items.
-/

namespace Collate.Service

open Procedure (Keeps run_bind_pure)

/-- A relation between the stores before and after any operation but those of
processing. -/
structure Spans (R : Store → Store → Prop) : Prop extends Covers R where
  submit : ∀ {s s' id pending}, Store.submit id s = .ok (pending, s') → R s s'
  moveOrder : ∀ {s s' id source target moved},
    Store.moveOrder id source target s = .ok (moved, s') → R s s'
  rollUp : ∀ {s s' snapshot target moved},
    Store.rollUp snapshot target s = .ok (moved, s') → R s s'
  saveMerged : ∀ {s s' id table}, Store.saveMerged id table s = .ok ((), s') → R s s'
  retry : ∀ {s s'} {failed next : Item} {idAt now order},
    s.item? failed.id = some failed → failed.retryFrom idAt now = .ok next →
    Store.retry next s = .ok (order, s') → R s s'

structure SpansAll (R : Store → Store → Prop) : Prop extends Spans R where
  begin : ∀ {s s' id now started}, Store.begin id now s = .ok (started, s') → R s s'
  putResult : ∀ {s s' result put}, Store.putResult result s = .ok (put, s') → R s s'
  resolve : ∀ {s s' held order}, Store.resolve held s = .ok (order, s') → R s s'

variable {R : Store → Store → Prop} {policy : Policy} {d : Desk}

/-- Every operation that a call may perform, but for processing and retrying. -/
theorem Spans.issued (hR : Spans R) {c : Call} (hprocess : ∀ item, c ≠ .processItem item)
    (hretry : ∀ item, c ≠ .retryItem item) {k : Store.Call} {s s' : Store} (hmay : c.Issues k)
    (hok : k.perform s = .ok s') : R s s' := by
  by_cases hc : c.TakesOn
  · cases hmay with
    | submit =>
      obtain ⟨_, hok⟩ := Store.map_snd_eq_ok.mp hok
      exact hR.submit hok
    | rollup =>
      obtain ⟨_, hok⟩ := Store.map_snd_eq_ok.mp hok
      exact hR.rollUp hok
    | saveMerged =>
      obtain ⟨_, hok⟩ := Store.map_snd_eq_ok.mp hok
      exact hR.saveMerged hok
    | noteError _ id error =>
      obtain ⟨_, hok⟩ := (Store.map_snd_eq_ok (x := Store.noteError id error s)).mp hok
      exact hR.noteError hok
    | complete =>
      obtain ⟨_, hok⟩ := Store.map_snd_eq_ok.mp hok
      exact hR.moveOrder hok
    | begin | putResult | resolve | rollUpProcessed => exact absurd rfl (hprocess _)
    | retryItem => exact absurd rfl (hretry _)
    | _ => exact hc.elim
  · exact hR.toCovers.issued hc hmay hok

/-- Every operation that processing may perform. -/
theorem SpansAll.issued (hR : SpansAll R) {item : String} {k : Store.Call} {s s' : Store}
    (hmay : (Call.processItem item).Issues k) (hok : k.perform s = .ok s') : R s s' := by
  cases hmay with
  | begin =>
    obtain ⟨_, hok⟩ := Store.map_snd_eq_ok.mp hok
    exact hR.begin hok
  | putResult =>
    obtain ⟨_, hok⟩ := Store.map_snd_eq_ok.mp hok
    exact hR.putResult hok
  | resolve =>
    obtain ⟨_, hok⟩ := Store.map_snd_eq_ok.mp hok
    exact hR.resolve hok
  | rollUpProcessed =>
    obtain ⟨_, hok⟩ := Store.map_snd_eq_ok.mp hok
    exact hR.rollUp hok

/-- Retrying puts in the next try of an item that is there when it is looked up. -/
theorem retryItem_keeps (hR : Spans R) (policy : Policy) (id : String) :
    (retryItem policy id).Keeps R := by
  intro d
  cases hrun : (retryItem policy id).run d with
  | mk r d' =>
    obtain ⟨hsame, -⟩ | ⟨failed, next, idAt, now, o, hfound, hnext, hok, -⟩ :=
      retryItem_cases hrun
    · rw [hsame]
      exact hR.refl _
    · exact hR.retry hfound hnext hok

/-! Calls. -/

namespace Call

/-- Every call but processing. -/
theorem keeps (hR : Spans R) (policy : Policy) (c : Call) (hc : ∀ item, c ≠ .processItem item) :
    R d.store (c.after policy d).store := by
  by_cases hretry : ∃ item, c = .retryItem item
  · obtain ⟨item, rfl⟩ := hretry
    rw [after, procedure, run_bind_pure]
    exact retryItem_keeps hR policy item d
  · exact keeps_of_issues hR.toGathers (hR.issued hc fun item heq => hretry ⟨item, heq⟩)

/-- Any call. -/
theorem keeps_all (hR : SpansAll R) (policy : Policy) (c : Call) :
    R d.store (c.after policy d).store := by
  by_cases hc : ∃ item, c = .processItem item
  · obtain ⟨item, rfl⟩ := hc
    exact keeps_of_issues hR.toGathers hR.issued
  · exact c.keeps hR.toSpans policy fun item heq => hc ⟨item, heq⟩

end Call

end Collate.Service
