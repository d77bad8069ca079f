import Collate.Proofs.Service.Settling

/-!
Whole calls of the service, one after the other. Whatever is called, and however
it ends, the status of every order agrees with its items between calls, and one
call takes an order at most one step on. Only one thing is asked of the caller:
to have an item processed only when a call asked for it.
-/

namespace Collate.Service

open Procedure (Keeps run_bind_pure)

namespace Call

/-- The items that a call asks to have processed. A call that fails asks for
none. -/
def asks (policy : Policy) (c : Call) (d : Desk) : List String :=
  match ((c.procedure policy).run d).1 with
  | .ok items => items
  | .error _ => []

/-- Only items that were asked for are to be processed. -/
def Allowed (issued : List String) : Call → Prop
  | .processItem item => item ∈ issued
  | _ => True

end Call

/-- Desks that calls lead to, with the ids of the items asked for so far. -/
inductive Reachable : Desk → List String → Prop
  | start {d : Desk} : d.store = Store.empty → Reachable d []
  | call {d : Desk} {issued : List String} (policy : Policy) (c : Call) :
      Reachable d issued → c.Allowed issued →
      Reachable (c.after policy d) (issued ++ c.asks policy d)
  /-- Time passes, files come and go, templates and bindings are saved. -/
  | meanwhile {d d' : Desk} {issued : List String} :
      Reachable d issued → d.store.SameRecords d'.store → Reachable d' issued

namespace Call

variable {policy : Policy} {c : Call} {d : Desk} {issued : List String}

/-- What a call gives does not matter for where it leads. -/
theorem advances_of {α : Type} {p : Procedure α} {f : α → List String}
    (h : c.procedure policy = p >>= fun a => pure (f a)) (hp : p.Keeps Store.Advances) :
    d.store.Advances (c.after policy d).store := by
  rw [after, h, run_bind_pure]
  exact hp d

/-- A call keeps a store steady and takes each order at most one step on. -/
theorem advances (hsent : ∀ id ∈ issued, d.store.Sent id) (hallowed : c.Allowed issued) :
    d.store.Advances (c.after policy d).store := by
  by_cases hc : c.TakesOn
  · cases c with
    | submit order => exact submit_advances policy order d
    | processItem item =>
      intro hsteady
      rw [after, procedure, run_bind_pure]
      exact processItem_run hsteady (hsent item hallowed) rfl
    | rollup order => exact advances_of rfl (rollup_advances policy order)
    | retryItem item => exact advances_of rfl (retryItem_advances policy item)
    | runMerge order => exact advances_of rfl (runMerge_advances policy order)
    | _ => exact hc.elim
  · exact (goes_covers.call policy hc d).advances

/-- A call that gives nothing to be processed asks for nothing. -/
theorem asks_nothing {α : Type} {p : Procedure α}
    (h : c.procedure policy = p >>= fun _ => pure []) : c.asks policy d = [] := by
  rw [asks, h, run_bind_pure]
  cases (p.run d).1 with
  | ok a => rfl
  | error fault => rfl

/-- The items asked for belong to orders that were submitted. -/
theorem asks_sent (hsteady : d.store.Steady) :
    ∀ id ∈ c.asks policy d, (c.after policy d).store.Sent id := by
  intro id hid
  by_cases hnone : c.asks policy d = []
  · simp [hnone] at hid
  · cases c with
    | submit order =>
      rw [asks, procedure] at hid
      rw [after, procedure]
      cases hrun : (Service.submit policy order).run d with
      | mk r d' =>
        rw [hrun] at hid
        cases r with
        | ok ids => exact submit_sent hrun id hid
        | error fault => cases hid
    | retryItem item =>
      rw [asks, procedure, run_bind_pure] at hid
      rw [after, procedure, run_bind_pure]
      cases hrun : (Service.retryItem policy item).run d with
      | mk r d' =>
        rw [hrun] at hid
        cases r with
        | ok next =>
          rw [List.mem_singleton.mp hid]
          exact (retryItem_run hsteady hrun).2 next rfl
        | error fault => cases hid
    | _ => exact absurd (asks_nothing rfl) hnone

end Call

/-- Between calls the store is steady, and what was asked for belongs to orders
that were submitted. -/
theorem Reachable.steady {d : Desk} {issued : List String} (h : Reachable d issued) :
    d.store.Steady ∧ ∀ id ∈ issued, d.store.Sent id := by
  induction h with
  | start hempty =>
    rw [hempty]
    exact ⟨Store.empty_steady, nofun⟩
  | @call d issued policy c hreach hallowed ih =>
    obtain ⟨hsteady, hsent⟩ := ih
    have hadvances : d.store.Advances (c.after policy d).store := Call.advances hsent hallowed
    obtain ⟨hsteady', hfollows⟩ := hadvances hsteady
    refine ⟨hsteady', ?_⟩
    intro id hid
    rcases List.mem_append.mp hid with hold | hnew
    · exact (hsent id hold).follows hsteady.toBalanced.toCoherent hsteady'.toCoherent hfollows
    · exact Call.asks_sent hsteady id hnew
  | meanwhile hreach hsame ih =>
    obtain ⟨hsteady, hsent⟩ := ih
    obtain ⟨hsteady', -⟩ := goes_of_sameRecords _ _ hsame hsteady
    exact ⟨hsteady', fun id hid => (hsent id hid).of_records hsame.orders hsame.items⟩

/-- The status of every order agrees with its items, and whatever is called next
leaves it or takes it one step on. -/
theorem Reachable.orders_settled {d : Desk} {issued : List String} (h : Reachable d issued) :
    (∀ o ∈ d.store.orders, d.store.Settled o) ∧
      ∀ (policy : Policy) (c : Call), c.Allowed issued → ∀ o ∈ d.store.orders,
        ∃ o', (c.after policy d).store.order? o.id = some o' ∧
          (o'.status = o.status ∨ o.status.leadsTo o'.status = true) := by
  obtain ⟨hsteady, hsent⟩ := h.steady
  refine ⟨hsteady.settled, ?_⟩
  intro policy c hallowed o ho
  obtain ⟨hsteady', hfollows⟩ := Call.advances hsent hallowed hsteady
  obtain ⟨o', ho', hid, hmoves⟩ := hfollows.orders o ho
  refine ⟨o', ?_, hmoves⟩
  rw [← hid]
  exact hsteady'.order?_of_mem ho'

/-! An order with one item, which has no primary file. -/

private def plainPolicy : Policy := ⟨.standard, .tolerant, ⟨"blobs"⟩, .local, false⟩

private def submittedDesk : Desk :=
  let created := (Call.createOrder none).after plainPolicy Desk.empty
  let drafted := (Call.addItem (Desk.idOf 0) "acme" "invoice" "scan").after plainPolicy created
  (Call.submit (Desk.idOf 0)).after plainPolicy drafted

private theorem reachable_submittedDesk : Reachable submittedDesk [Desk.idOf 1] := by
  have h := Reachable.start (d := Desk.empty) rfl
  have h := h.call plainPolicy (.createOrder none) trivial
  have h := h.call plainPolicy (.addItem (Desk.idOf 0) "acme" "invoice" "scan") trivial
  have h := h.call plainPolicy (.submit (Desk.idOf 0)) trivial
  have hissued : (Call.submit (Desk.idOf 0)).asks plainPolicy
      ((Call.addItem (Desk.idOf 0) "acme" "invoice" "scan").after plainPolicy
        ((Call.createOrder none).after plainPolicy Desk.empty)) = [Desk.idOf 1] := by
    decide +kernel
  rw [hissued] at h
  exact h

/-- Its item fails, and so does the order. A retry has the order processed
again. -/
theorem Reachable.orders_settled_failed : ∃ d issued, Reachable d issued ∧
    d.store.orders.map (·.status) = [.failed] ∧ (∀ o ∈ d.store.orders, d.store.Settled o) ∧
    ((Call.retryItem (Desk.idOf 1)).after plainPolicy d).store.orders.map (·.status) =
      [.processing] ∧
    ∀ o ∈ d.store.orders, ∃ o',
      ((Call.retryItem (Desk.idOf 1)).after plainPolicy d).store.order? o.id = some o' ∧
        (o'.status = o.status ∨ o.status.leadsTo o'.status = true) := by
  have h := reachable_submittedDesk.call plainPolicy (.processItem (Desk.idOf 1))
    (List.mem_singleton.mpr rfl)
  obtain ⟨hsettled, hmoves⟩ := h.orders_settled
  exact ⟨_, _, h, by decide +kernel, hsettled, by decide +kernel,
    hmoves plainPolicy (.retryItem (Desk.idOf 1)) trivial⟩

end Collate.Service
