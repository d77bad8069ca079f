import Collate.Proofs.Service.Served

/-!
Stores that differ in when their items were processed, and in nothing else about
them. Counters of orders are the same in such stores, and a roll-up takes an
order to the same place, since neither looks at these times.
-/

namespace Collate

def Item.untimed (i : Item) : Item := { i with startedAt := none, endedAt := none }

theorem Item.same_of_untimed {i j : Item} (h : i.untimed = j.untimed) :
    i.id = j.id ∧ i.orderId = j.orderId ∧ i.company = j.company ∧
      i.documentType = j.documentType ∧ i.status = j.status ∧ i.files = j.files := by
  simp only [Item.untimed, Item.mk.injEq] at h
  obtain ⟨hid, horder, hcompany, hdocument, -, hstatus, hfiles, -⟩ := h
  exact ⟨hid, horder, hcompany, hdocument, hstatus, hfiles⟩

theorem Item.judged_untimed {i j : Item} (h : i.untimed = j.untimed) (now now' : Time.Timestamp)
    (verdict : Except String Unit) :
    (i.judged now verdict).untimed = (j.judged now' verdict).untimed := by
  simp only [Item.untimed, Item.mk.injEq] at h
  obtain ⟨hid, horder, hcompany, hdocument, hname, -, hfiles, hretry, -, -, herror, hcreated⟩ := h
  cases verdict with
  | ok u =>
    simp only [Item.judged, Item.untimed, hid, horder, hcompany, hdocument, hname, hfiles, hretry,
      herror, hcreated]
  | error reason =>
    simp only [Item.judged, Item.untimed, hid, horder, hcompany, hdocument, hname, hfiles, hretry,
      hcreated]

theorem Service.examination_untimed (policy : Policy) (disk : Disk) {i j : Item}
    (h : i.untimed = j.untimed) (keys : Option (List String)) (calls : Nat) :
    Service.examination policy disk i keys calls =
      Service.examination policy disk j keys calls := by
  obtain ⟨hid, -, hcompany, hdocument, -, hfiles⟩ := Item.same_of_untimed h
  exact Service.examination_congr policy disk hid hcompany hdocument hfiles keys calls

namespace Store

variable {s t : Store}

def untimedItems (s : Store) : List Item := s.items.map Item.untimed

theorem untimedItems_updateItem (s : Store) (k : Item) :
    (s.updateItem k.id fun _ => k).untimedItems =
      s.untimedItems.map fun i => if i.id = k.id then k.untimed else i := by
  rw [untimedItems, untimedItems, updateItem, List.map_map, List.map_map]
  apply List.map_congr_left
  intro i _
  by_cases hid : i.id = k.id
  · simp [hid, Item.untimed]
  · simp [hid, Item.untimed]

section

variable (h : s.untimedItems = t.untimedItems)

include h

/-- A question that does not ask for times has the same answer for the items of
both stores. -/
theorem any_untimed {p : Item → Bool} (hp : ∀ i, p i.untimed = p i) :
    s.items.any p = t.items.any p := by
  have hcomp : p ∘ Item.untimed = p := funext hp
  have hmapped := congrArg (List.any · p) h
  simpa only [untimedItems, List.any_map, hcomp] using hmapped

theorem countOf_untimed {p : Item → Bool} (hp : ∀ i, p i.untimed = p i) (order : String) :
    s.countOf order p = t.countOf order p := by
  have hcomp : (fun i : Item => i.orderId == order && p i) ∘ Item.untimed =
      fun i => i.orderId == order && p i := by
    funext i
    rw [Function.comp_apply, hp]
    rfl
  have hmapped := congrArg (List.countP fun i : Item => i.orderId == order && p i) h
  rw [countOf, countOf]
  simpa only [untimedItems, List.countP_map, hcomp] using hmapped

theorem isRetried_untimed (id : String) : s.isRetried id = t.isRetried id :=
  any_untimed h fun _ => rfl

theorem has_untimed (order : String) (status : ItemStatus) :
    s.Has order status ↔ t.Has order status := by
  have hany : ∀ u : Store, u.Has order status ↔
      u.items.any (fun i => i.orderId == order && i.status == status) = true := by
    intro u
    simp [Has]
  rw [hany, hany, any_untimed h fun _ => rfl]

theorem counters_untimed {o p : Order} (ho : s.Exact o) (hp : t.Exact p) (hid : o.id = p.id) :
    o.total = p.total ∧ o.completed = p.completed ∧ o.failed = p.failed := by
  refine ⟨?_, ?_, ?_⟩
  · rw [ho.total, hp.total, hid]
    simp only [isRetried_untimed h]
    exact countOf_untimed h (fun _ => rfl) _
  · rw [ho.completed, hp.completed, hid]
    exact countOf_untimed h (fun _ => rfl) _
  · rw [ho.failed, hp.failed, hid]
    simp only [isRetried_untimed h]
    exact countOf_untimed h (fun _ => rfl) _

/-- The order in which items are listed does not matter to a question about any
of them. -/
theorem any_completed_untimed {p : Item → Bool} (hp : ∀ i, p i.untimed = p i) (order : String) :
    ((s.itemsOf order).filter (·.status == .completed)).any p =
      ((t.itemsOf order).filter (·.status == .completed)).any p := by
  have hlisted : ∀ u : Store, ((u.itemsOf order).filter (·.status == .completed)).any p =
      u.items.any fun i => i.orderId == order && (i.status == .completed && p i) := by
    intro u
    rw [Bool.eq_iff_iff, List.any_eq_true, List.any_eq_true]
    simp only [List.mem_filter, mem_itemsOf, Bool.and_eq_true, beq_iff_eq]
    constructor
    · rintro ⟨i, ⟨⟨hi, horder⟩, hcompleted⟩, hpi⟩
      exact ⟨i, hi, horder, hcompleted, hpi⟩
    · rintro ⟨i, hi, horder, hcompleted, hpi⟩
      exact ⟨i, ⟨⟨hi, horder⟩, hcompleted⟩, hpi⟩
  rw [hlisted, hlisted]
  apply any_untimed h
  intro i
  rw [hp]
  rfl

end

/-- Where an order goes does not depend on when its items were processed. -/
theorem rollupFacts_untimed (h : s.untimedItems = t.untimedItems)
    (htemplates : s.templates = t.templates) (hbindings : s.bindings = t.bindings) {o p : Order}
    (hcounters : o.total = p.total ∧ o.completed = p.completed ∧ o.failed = p.failed)
    (hkeys : o.mappingKeys = p.mappingKeys) (order : String) :
    s.rollupFacts o (s.itemsOf order) = t.rollupFacts p (t.itemsOf order) :=
  rollupFacts_congr htemplates hbindings hkeys hcounters fun _ =>
    any_completed_untimed h (fun _ => rfl) order

end Store

end Collate
