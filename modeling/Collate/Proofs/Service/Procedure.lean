import Collate.Proofs.Store.Steady
import Collate.Service.Procedure

/-!
Running procedures. `run_bind` takes a run apart at a bind. A procedure `Acts` by a
relation when each of its actions does to the desk what the relation says, whoever
acted before, and `Keeps` a relation when the store before and the store after its
run are related by it, whether it gives a value or a fault. It `Yields` when it cannot
end in a fault.
-/

namespace Collate

structure Store.SameRecords (s s' : Store) : Prop where
  orders : s'.orders = s.orders
  items : s'.items = s.items
  merged : s'.merged = s.merged

namespace Procedure

variable {α β : Type} {p : Procedure α} {f : α → Procedure β}

theorem run_bind (p : Procedure α) (f : α → Procedure β) (d : Desk) :
    (p >>= f).run d = match p.run d with
      | (.ok a, d') => (f a).run d'
      | (.error e, d') => (.error e, d') := by
  change (p.bind f).run d = _
  induction p generalizing d with
  | done result =>
    cases result with
    | ok a => rfl
    | error e => rfl
  | act action next ih => simp only [bind, run, ih]

theorem run_pure (a : α) (d : Desk) : (pure a : Procedure α).run d = (.ok a, d) := rfl

/-- A run of one procedure and then another ends in the second one, or in the
first with a fault. -/
theorem run_bind_cases {d d' : Desk} {r : Except ServiceFault β}
    (h : (p >>= f).run d = (r, d')) :
    (∃ a e, p.run d = (.ok a, e) ∧ (f a).run e = (r, d')) ∨
      ∃ fault, p.run d = (.error fault, d') ∧ r = .error fault := by
  rw [run_bind] at h
  cases hp : p.run d with
  | mk result e =>
    cases result with
    | ok a =>
      rw [hp] at h
      exact Or.inl ⟨a, e, rfl, h⟩
    | error fault =>
      rw [hp] at h
      cases h
      exact Or.inr ⟨fault, rfl, rfl⟩

/-- A run with a value has one of the first procedure. -/
theorem run_bind_eq_ok {d d' : Desk} {b : β} (h : (p >>= f).run d = (.ok b, d')) :
    ∃ a e, p.run d = (.ok a, e) ∧ (f a).run e = (.ok b, d') :=
  (run_bind_cases h).resolve_right fun ⟨_, _, hfault⟩ => nomatch hfault

theorem run_bind_ok {d d' : Desk} {a : α} (h : p.run d = (.ok a, d')) :
    (p >>= f).run d = (f a).run d' := by
  rw [run_bind, h]

/-- What is made of the value changes nothing else. -/
theorem run_bind_pure (p : Procedure α) (f : α → β) (d : Desk) :
    (p >>= fun a => pure (f a)).run d = ((p.run d).1.map f, (p.run d).2) := by
  rw [run_bind]
  cases p.run d with
  | mk result e =>
    cases result with
    | ok a => rfl
    | error fault => rfl

theorem run_attempt (p : Procedure α) (d : Desk) :
    p.attempt.run d = (.ok (p.run d).1, (p.run d).2) := by
  induction p generalizing d with
  | done result => rfl
  | act action next ih => simp only [attempt, run, ih]

theorem run_need (result : Except ServiceFault α) (d : Desk) :
    (need result).run d = (result, d) := rfl

theorem run_look (query : Store → α) (d : Desk) :
    (look query).run d = (.ok (query d.store), d) := rfl

theorem run_now (d : Desk) : now.run d = (.ok d.clock, d) := rfl

theorem run_newIds (count : Nat) (d : Desk) : (newIds count).run d =
    (.ok fun n => Desk.idOf (d.ids + n), { d with ids := d.ids + count }) := rfl

theorem run_order (id : String) (d : Desk) :
    (order id).run d = ((d.store.order id).mapError .order, d) := rfl

theorem run_item (id : String) (d : Desk) :
    (item id).run d = ((d.store.item id).mapError .order, d) := rfl

/-- Announcing leaves everything but the events alone. -/
theorem run_announce (policy : Policy) (event : ProgressEvent) (d : Desk) :
    ∃ events, (announce policy event).run d = (.ok (), { d with events := events }) := by
  unfold announce
  split
  · exact ⟨_, rfl⟩
  · exact ⟨d.events, rfl⟩

theorem run_announceOrder (policy : Policy) {id : String} {o : Order} (phase : Phase)
    (message : String) {d : Desk} (ho : d.store.order? id = some o) : ∃ events,
    (announceOrder policy id phase message).run d = (.ok (), { d with events := events }) := by
  have horder : (order id).run d = (.ok o, d) := by
    rw [run_order, Store.order_eq_ok.mpr ho]
    rfl
  unfold announceOrder
  split
  · rw [run_bind_ok horder]
    exact run_announce policy _ d
  · exact ⟨d.events, rfl⟩

theorem run_store_ok {op : StoreOp α} {d : Desk} {a : α} {s : Store}
    (h : op d.store = .ok (a, s)) : (store op).run d = (.ok a, { d with store := s }) := by
  simp only [store, run, h]

theorem run_store_error {op : StoreOp α} {d : Desk} {fault : StoreFault}
    (h : op d.store = .error fault) : (store op).run d = (.error (.ofStore fault), d) := by
  simp only [store, run, h]

/-- An operation that gives a value took place. -/
theorem store_ok {op : StoreOp α} {d d' : Desk} {a : α} (h : (store op).run d = (.ok a, d')) :
    op d.store = .ok (a, d'.store) := by
  cases hop : op d.store with
  | error fault =>
    rw [run_store_error hop] at h
    cases h
  | ok result =>
    rw [run_store_ok hop] at h
    cases h
    rfl

/-- An operation that gives a fault changed nothing. -/
theorem store_error {op : StoreOp α} {d d' : Desk} {fault : ServiceFault}
    (h : (store op).run d = (.error fault, d')) : d' = d := by
  cases hop : op d.store with
  | error fault =>
    rw [run_store_error hop] at h
    cases h
    rfl
  | ok result =>
    rw [run_store_ok hop] at h
    cases h

theorem item_ok {id : String} {i : Item} {d d' : Desk} (h : (item id).run d = (.ok i, d')) :
    d.store.item? id = some i ∧ d' = d := by
  rw [run_item, Prod.mk.injEq, Except.mapError_eq_ok, Store.item_eq_ok] at h
  exact ⟨h.1, h.2.symm⟩

theorem item_error {id : String} {fault : ServiceFault} {d d' : Desk}
    (h : (item id).run d = (.error fault, d')) : d' = d := by
  rw [run_item, Prod.mk.injEq] at h
  exact h.2.symm

/-! What each action does. -/

/-- Whether each action of a procedure does to the desk what a relation says. -/
def Acts (G : Desk → Desk → Prop) : Procedure α → Prop
  | .done _ => True
  | .act action next => ∀ d, G d (action d).2 ∧ (next (action d).1).Acts G

section

variable {G G' : Desk → Desk → Prop}

theorem Acts.mono (h : p.Acts G) (himp : ∀ d d', G d d' → G' d d') : p.Acts G' := by
  induction p with
  | done result => trivial
  | act action next ih => exact fun d => ⟨himp _ _ (h d).1, ih _ (h d).2⟩

/-- The second of two procedures only acts on a value of the first. -/
theorem Acts.bind (hp : p.Acts G) (hf : ∀ a, (f a).Acts G) : (p >>= f).Acts G := by
  change (p.bind f).Acts G
  induction p with
  | done result =>
    cases result with
    | ok a => exact hf a
    | error fault => trivial
  | act action next ih => exact fun d => ⟨(hp d).1, ih _ (hp d).2⟩

/-- After a check the procedure goes on with what was found to be in order. -/
theorem Acts.need_bind {result : Except ServiceFault α}
    (hf : ∀ a, result = .ok a → (f a).Acts G) : (need result >>= f).Acts G := by
  cases result with
  | ok a => exact hf a rfl
  | error fault => trivial

theorem Acts.attempt (hp : p.Acts G) : p.attempt.Acts G := by
  induction p with
  | done result => trivial
  | act action next ih => exact fun d => ⟨(hp d).1, ih _ (hp d).2⟩

/-- What all actions together do, whatever the procedure comes to. -/
theorem Acts.run {R : Desk → Desk → Prop} (h : p.Acts G) (hrefl : ∀ d, R d d)
    (htrans : ∀ {d e f}, R d e → R e f → R d f) (himp : ∀ d d', G d d' → R d d') (d : Desk) :
    R d (p.run d).2 := by
  induction p generalizing d with
  | done result => exact hrefl d
  | act action next ih => exact htrans (himp _ _ (h d).1) (ih _ (h d).2 _)

end

/-! Relations between the store before and after a run. -/

/-- A relation that holds of no step and of two steps if it holds of each. -/
structure Gathers (R : Store → Store → Prop) : Prop where
  refl : ∀ s, R s s
  trans : ∀ {a b c}, R a b → R b c → R a c

theorem sameRecords_gathers : Gathers Store.SameRecords where
  refl _ := ⟨rfl, rfl, rfl⟩
  trans h h' := ⟨h'.orders.trans h.orders, h'.items.trans h.items, h'.merged.trans h.merged⟩

theorem goes_gathers : Gathers Store.Goes where
  refl := Store.Goes.refl
  trans h h' := h.trans h'

/-- Whatever a procedure comes to, the stores before and after are related. -/
def Keeps (R : Store → Store → Prop) (p : Procedure α) : Prop :=
  ∀ d, R d.store (p.run d).2.store

theorem Keeps.mono {R R' : Store → Store → Prop} (h : p.Keeps R) (himp : ∀ a b, R a b → R' a b) :
    p.Keeps R' := fun d => himp _ _ (h d)

/-- A run of one procedure and then another is related as the two are together,
or as the first one is if that ends in a fault. -/
theorem Keeps.bind_of {R Q P : Store → Store → Prop} (hp : p.Keeps R)
    (hf : ∀ a, (f a).Keeps Q) (hstop : ∀ a b, R a b → P a b)
    (hon : ∀ a b c, R a b → Q b c → P a c) : (p >>= f).Keeps P := by
  intro d
  have hfirst := hp d
  rw [run_bind]
  cases hrun : p.run d with
  | mk result e =>
    rw [hrun] at hfirst
    cases result with
    | ok a => exact hon _ _ _ hfirst (hf a e)
    | error fault => exact hstop _ _ hfirst

/-- Statuses that stay may come before a procedure that moves orders on. -/
theorem Keeps.advances_after (hp : p.Keeps Store.Goes) (hf : ∀ a, (f a).Keeps Store.Advances) :
    (p >>= f).Keeps Store.Advances :=
  Keeps.bind_of hp hf (fun _ _ h => h.advances) fun _ _ _ h h' => h.advances_after h'

/-- Statuses that stay may come after a procedure that moves orders on. -/
theorem Keeps.goes_after (hp : p.Keeps Store.Advances) (hf : ∀ a, (f a).Keeps Store.Goes) :
    (p >>= f).Keeps Store.Advances :=
  Keeps.bind_of hp hf (fun _ _ h => h) fun _ _ _ h h' => h.goes_after h'

theorem Keeps.advances (h : p.Keeps Store.Goes) : p.Keeps Store.Advances :=
  h.mono fun _ _ => Store.Goes.advances

section

variable {R : Store → Store → Prop} (hR : Gathers R)

include hR

theorem Keeps.bind (hp : p.Keeps R) (hf : ∀ a, (f a).Keeps R) : (p >>= f).Keeps R :=
  Keeps.bind_of hp hf (fun _ _ h => h) fun _ _ _ h h' => hR.trans h h'

theorem Keeps.pure (a : α) : (Pure.pure a : Procedure α).Keeps R :=
  fun d => hR.refl d.store

theorem Keeps.store {op : StoreOp α} (h : ∀ {s a s'}, op s = .ok (a, s') → R s s') :
    (store op).Keeps R := by
  intro d
  cases hop : op d.store with
  | ok result =>
    rw [run_store_ok (a := result.1) (s := result.2) hop]
    exact h hop
  | error fault =>
    rw [run_store_error hop]
    exact hR.refl _

end

/-! Procedures that cannot fail. -/

/-- Whether a procedure ends in a value, whatever others do in between. -/
def Yields : Procedure α → Prop
  | .done result => ∃ a, result = .ok a
  | .act action next => ∀ d, (next (action d).1).Yields

theorem Yields.pure (a : α) : (Pure.pure a : Procedure α).Yields := ⟨a, rfl⟩

theorem Yields.perform (action : Desk → α × Desk) : (perform action).Yields :=
  fun d => ⟨(action d).1, rfl⟩

theorem Yields.bind (hp : p.Yields) (hf : ∀ a, (f a).Yields) : (p >>= f).Yields := by
  change (p.bind f).Yields
  induction p with
  | done result =>
    obtain ⟨a, rfl⟩ := hp
    exact hf a
  | act action next ih => exact fun d => ih _ (hp d)

/-- Whatever goes wrong, an attempt gives a value. -/
theorem Yields.attempt (p : Procedure α) : p.attempt.Yields := by
  induction p with
  | done result => exact ⟨result, rfl⟩
  | act action next ih => exact fun d => ih (action d).1

theorem Yields.run (h : p.Yields) (d : Desk) : ∃ a d', p.run d = (.ok a, d') := by
  induction p generalizing d with
  | done result =>
    obtain ⟨a, rfl⟩ := h
    exact ⟨a, d, rfl⟩
  | act action next ih => exact ih _ (h d) _

end Procedure

end Collate
