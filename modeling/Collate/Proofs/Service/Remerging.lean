import Collate.Proofs.Dict
import Collate.Proofs.Service.Merging
import Collate.Proofs.Service.Rollup
import Collate.Proofs.Store.Reached

/-!
What a merge leaves behind. Refused, it leaves nothing; failed, a note on its
order; else the merged table, on an order that is completed and has no note. A
merge that comes after it reads what the first one read, so that it gives the
same table again and finds everything as it would leave it.
-/

namespace Collate

namespace Store

variable {s : Store} {o : Order}

/-! Changes to an order. -/

theorem updateOrder_updateOrder (s : Store) {id : String} {first : Order → Order}
    (hid : ∀ o, (first o).id = o.id) (second : Order → Order) :
    (s.updateOrder id first).updateOrder id second =
      s.updateOrder id fun o => second (first o) := by
  have horder : ∀ o : Order, (if (if o.id == id then first o else o).id == id
      then second (if o.id == id then first o else o) else if o.id == id then first o else o) =
        if o.id == id then second (first o) else o := by
    intro o
    by_cases hhere : o.id = id
    · simp [hhere, hid]
    · simp [hhere]
  simp only [updateOrder, List.map_map, Function.comp_def, horder]

/-- Only what a change makes of the order of that id matters. -/
theorem Keyed.updateOrder_congr (h : s.Keyed) (ho : s.order? o.id = some o)
    {change change' : Order → Order} (hsame : change o = change' o) :
    s.updateOrder o.id change = s.updateOrder o.id change' := by
  obtain ⟨hmem, -⟩ := order?_mem ho
  rw [updateOrder, updateOrder]
  congr 1
  apply List.map_congr_left
  intro p hp
  by_cases hid : p.id = o.id
  · rw [h.order_unique hp hmem hid, hsame]
  · simp [hid]

/-- The store once a merge succeeded: the order has a merged table, in place of
an earlier one, is completed and has no note. -/
def mergedAs (s : Store) (id : String) (table : Merged) : Store :=
  ({ s with merged := s.merged.insert id table }).updateOrder id fun o =>
    { o with status := .completed, error := none }

/-- An order that was merged before is completed already. -/
theorem Keyed.kept_eq (h : s.Keyed) (ho : s.order? o.id = some o) (hadmits : s.AdmitsMerge o)
    (table : Merged) : s.kept o.id o.status table = s.mergedAs o.id table := by
  let saved : Store := { s with merged := s.merged.insert o.id table }
  have hsaved : saved.Keyed := ⟨h.orders_nodup, h.items_nodup, h.placed⟩
  rcases hadmits with hmapping | ⟨hcompleted, -⟩
  · rw [kept, if_pos hmapping, noted, updateOrder_updateOrder]
    · rfl
    · exact fun _ => rfl
  · rw [kept, if_neg (by simp [hcompleted])]
    apply hsaved.updateOrder_congr (o := o) ho
    rw [← hcompleted]

/-- The order once it was merged. -/
theorem mergedAs_order? (ho : s.order? o.id = some o) (table : Merged) :
    (s.mergedAs o.id table).order? o.id = some { o with status := .completed, error := none } := by
  rw [mergedAs, order?_updateOrder, if_pos rfl]
  · exact congrArg (Option.map _) ho
  · exact fun _ => rfl

/-- Keeping a merged table once more makes no difference. -/
theorem mergedAs_mergedAs (s : Store) (id : String) (table : Merged) :
    (s.mergedAs id table).mergedAs id table = s.mergedAs id table := by
  have hinsert : (s.merged.insert id table).insert id table = s.merged.insert id table := by
    apply Dict.ext_get?
    intro key
    simp only [Dict.get?_insert]
    split
    · rfl
    · rfl
  rw [mergedAs, mergedAs]
  change (({ s with merged := (s.merged.insert id table).insert id table }).updateOrder id
    _).updateOrder id _ = _
  rw [hinsert, updateOrder_updateOrder]
  exact fun _ => rfl

/-! The items that are merged. -/

theorem noLater_trans {a b c : Time.Timestamp} (hab : noLater a b = true)
    (hbc : noLater b c = true) : noLater a c = true := by
  simp only [noLater, Bool.or_eq_true, Bool.and_eq_true, decide_eq_true_iff, beq_iff_eq] at *
  omega

theorem noLater_total (a b : Time.Timestamp) : (noLater a b || noLater b a) = true := by
  simp only [noLater, Bool.or_eq_true, Bool.and_eq_true, decide_eq_true_iff, beq_iff_eq]
  omega

/-- The completed items of a listing are all that the order has, the oldest
first. -/
theorem itemsOf_completed (s : Store) (order : String) :
    ((s.itemsOf order).filter (·.status == .completed)).Perm (s.completedOf order) ∧
      ((s.itemsOf order).filter (·.status == .completed)).Pairwise
        fun a b => noLater a.createdAt b.createdAt = true := by
  constructor
  · have hperm := (List.mergeSort_perm (s.items.filter (·.orderId == order))
      fun a b => noLater a.createdAt b.createdAt).filter (·.status == .completed)
    rw [List.filter_filter] at hperm
    refine hperm.trans (List.Perm.of_eq ?_)
    rw [completedOf]
    congr 1
    funext i
    rw [Bool.and_comm]
  · apply List.Pairwise.filter
    apply List.pairwise_mergeSort
    · exact fun _ _ _ => noLater_trans
    · exact fun _ _ => noLater_total _ _

end Store

namespace Service

variable {policy : Policy} {d : Desk} {o : Order}

/-- Making a list out of another only depends on what its entries give. -/
theorem mapM_congr {α β ε : Type} {f g : α → Except ε β} {l : List α}
    (h : ∀ a ∈ l, f a = g a) : l.mapM f = l.mapM g := by
  induction l with
  | nil => rfl
  | cons a rest ih =>
    rw [List.mapM_cons, List.mapM_cons, h a (by simp), ih fun b hb => h b (by simp [hb])]

/-- What is merged of an item after a merge is what was merged of it before, if
the reference data reads the same. -/
theorem mergedItem_again {d' : Desk} {table : Merged}
    (hstore : d'.store = d.store.mergedAs o.id table)
    {i : Item} (hmasters : ∀ plan path, planFor d.store o i = .ok plan →
      plan.masterCsv = some path → d'.disk.read path = d.disk.read path) :
    mergedItem policy d' { o with status := .completed, error := none } i =
      mergedItem policy d o i := by
  have hplan : planFor d'.store { o with status := .completed, error := none } i =
      planFor d.store o i := by
    rw [hstore]
    rfl
  have hresults : d'.store.resultsOf i.id = d.store.resultsOf i.id := by
    rw [hstore]
    rfl
  rw [mergedItem, mergedItem, hplan, hresults]
  cases hfound : planFor d.store o i with
  | error fault => rfl
  | ok plan =>
    have hmaster : ∀ tables, withMaster d'.disk plan tables = withMaster d.disk plan tables := by
      intro tables
      unfold withMaster
      split
      · rename_i path hpath
        rw [Table.ofFile, Table.ofFile, hmasters plan path hfound hpath]
      · rfl
    change (_ >>= fun tables => withMaster d'.disk plan tables >>= _) =
      (_ >>= fun tables => withMaster d.disk plan tables >>= _)
    simp only [hmaster]

/-- A merge of an order that does not admit one changes nothing. A merge that
fails for one of the completed items leaves a note on the order and nothing else.
Otherwise the tables of the completed items, as they are listed in the order of their
creation, are kept as one, and a merge that follows gives the same table and changes
nothing, while the store and the reference data stay as they are. -/
theorem runMerge_noted_or_kept (h : d.store.Reached) (ho : d.store.order? o.id = some o)
    (policy : Policy) :
    (¬ d.store.AdmitsMerge o →
      (runMerge policy o.id).run d =
        (.error (.order (.orderRefuses o.id o.status .merge)), d)) ∧
    (d.store.AdmitsMerge o → ∃ (items : List Item) (events : List ProgressEvent),
      items = (d.store.itemsOf o.id).filter (·.status == .completed) ∧
      items.Perm (d.store.completedOf o.id) ∧
      items.Pairwise (fun a b => Store.noLater a.createdAt b.createdAt = true) ∧
      ((∃ fault, items.mapM (mergedItem policy d o) = .error fault ∧
          (runMerge policy o.id).run d = (.error fault, { d with
            store := d.store.updateOrder o.id fun o => { o with error := some fault.message }
            events := events })) ∨
        ∃ parts, items.mapM (mergedItem policy d o) = .ok parts ∧
          (runMerge policy o.id).run d = (.ok (Merged.concat parts), { d with
            store := d.store.mergedAs o.id (Merged.concat parts)
            events := events }) ∧
          ∀ d' : Desk, d'.store = d.store.mergedAs o.id (Merged.concat parts) →
            (∀ i ∈ items, ∀ plan path, planFor d.store o i = .ok plan →
              plan.masterCsv = some path → d'.disk.read path = d.disk.read path) →
            ∃ events, (runMerge policy o.id).run d' =
              (.ok (Merged.concat parts), { d' with events := events }))) := by
  refine ⟨runMerge_refused policy ho, fun hadmits => ?_⟩
  obtain ⟨hperm, hsorted⟩ := d.store.itemsOf_completed o.id
  obtain ⟨events, hrun⟩ := runMerge_store policy ho hadmits
  refine ⟨_, events, rfl, hperm, hsorted, ?_⟩
  rw [← mergedParts]
  cases hparts : mergedParts policy d o with
  | error fault =>
    rw [hparts] at hrun
    exact Or.inl ⟨fault, rfl, hrun⟩
  | ok parts =>
    rw [hparts] at hrun
    dsimp only at hrun
    rw [h.keyed.kept_eq ho hadmits] at hrun
    refine Or.inr ⟨parts, rfl, hrun, ?_⟩
    intro d' hstore hmasters
    -- the order was merged, so that it admits a merge again
    let merged : Order := { o with status := .completed, error := none }
    have hmerged : d'.store.order? merged.id = some merged := by
      rw [hstore]
      exact Store.mergedAs_order? ho _
    have hagain : d'.store.AdmitsMerge merged := by
      refine Or.inr ⟨rfl, ?_⟩
      rw [hstore]
      change (d.store.merged.insert o.id _).contains o.id = true
      rw [Dict.contains_insert, decide_eq_true rfl, Bool.true_or]
    have hsame : mergedParts policy d' merged = .ok parts := by
      have hitems : d'.store.itemsOf merged.id = d.store.itemsOf o.id := by
        rw [hstore]
        rfl
      rw [← hparts, mergedParts, mergedParts, hitems]
      exact mapM_congr fun i hi => mergedItem_again hstore (hmasters i hi)
    have hkeyed : d'.store.Keyed := by
      rw [hstore]
      exact h.keyed.of_ids (Store.updateOrder_ids fun _ => rfl) rfl
    obtain ⟨events', hrun'⟩ := runMerge_store policy hmerged hagain
    rw [hsame] at hrun'
    dsimp only at hrun'
    rw [hkeyed.kept_eq hmerged hagain, hstore, Store.mergedAs_mergedAs, ← hstore] at hrun'
    exact ⟨events', hrun'⟩

/-! An order that awaits its merge with reference data. -/

private def mergingPolicy : Policy := ⟨.standard, .tolerant, ⟨"blobs"⟩, .local, false⟩

private def readItem : Item :=
  { Item.create "i" "o" "acme" "invoice" "scan" ⟨0, 0⟩ with
    files := [⟨"f", "i", .primary, "a.json", 0, "a.json", none⟩] }

private def readingCalls : List Store.Call :=
  [.saveTemplate ⟨0, "reference", .singleSource, none, none, 1,
      { JoinConfig.empty with masterCsv := some "prices" }⟩,
    .createOrder "o" none, .setMappingKeys "o" ["id"], .addItem readItem, .submit "o",
    .begin "i" ⟨1, 0⟩, .putResult ⟨"f", "i", .payload "\x7b\"id\":\"7\"\x7d"⟩,
    .resolve { readItem with
      status := .completed, startedAt := some ⟨1, 0⟩, endedAt := some ⟨2, 0⟩ },
    .rollUp { Order.create "o" none with status := .processing, total := 1, completed := 1 }
      .mapping]

private def awaitingDesk : Desk := { Desk.empty with
  store := readingCalls.foldl Store.Call.after Store.empty
  disk := ⟨[], [(["prices"], Text.Utf8.ofText "id,price\n7,12\n")]⟩ }

private def awaitingOrder : Order := (awaitingDesk.store.order? "o").getD (Order.create "" none)

/-- The merge finds the price, and finds it again. -/
theorem runMerge_noted_or_kept_twice : ∃ (d : Desk) (o : Order) (merged : Merged),
    d.store.Reached ∧ d.store.order? o.id = some o ∧ o.status = .mapping ∧
    ((runMerge mergingPolicy o.id).run d).1 = .ok merged ∧
    merged.table.rows.map (Table.rowCell · "price") = ["12"] ∧
    ∀ d' : Desk, d'.store = d.store.mergedAs o.id merged → d'.disk = d.disk →
      ∃ events, (runMerge mergingPolicy o.id).run d' = (.ok merged, { d' with events := events }) := by
  have hreached : awaitingDesk.store.Reached := Store.Reached.empty.calls readingCalls
  have horder : awaitingDesk.store.order? awaitingOrder.id = some awaitingOrder := by
    decide +kernel
  have hmapping : awaitingOrder.status = .mapping := by decide +kernel
  have hprice : (((runMerge mergingPolicy awaitingOrder.id).run awaitingDesk).1.map
      fun merged => merged.table.rows.map (Table.rowCell · "price")) = .ok ["12"] := by
    decide +kernel
  obtain ⟨-, hmerges⟩ := runMerge_noted_or_kept hreached horder mergingPolicy
  obtain ⟨items, events, -, -, -, ⟨fault, -, hrun⟩ | ⟨parts, -, hrun, hagain⟩⟩ :=
    hmerges (Or.inl hmapping)
  · rw [hrun] at hprice
    cases hprice
  · rw [hrun] at hprice
    refine ⟨awaitingDesk, awaitingOrder, Merged.concat parts, hreached, horder, hmapping, ?_,
      Except.ok.inj hprice, fun d' hstore hdisk => hagain d' hstore ?_⟩
    · rw [hrun]
    · intro i _ plan path _ _
      rw [hdisk]

end Service

end Collate
