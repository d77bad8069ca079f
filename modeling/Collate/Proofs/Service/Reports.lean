import Collate.Proofs.Blobs
import Collate.Proofs.Service.Interleaved
import Collate.Proofs.Store.Reached
import Collate.Service.Merging

/-!
Reports that several callers export at once. A call reads the order, writes the report
and then sets the order's list of reports to the one that it read, with its own
reference at the end. Every reference is a new one, but the list may have grown since
it was read, and then what others recorded in the meantime is lost: the order lists
all reports exactly if each call records its own `timely`.
-/

namespace Collate

/-! Callers that take turns. -/

/-- Callers on one desk, each with a procedure to do. -/
structure Crew (α : Type) where
  desk : Desk
  calls : List (Procedure α)

namespace Crew

variable {α : Type}

def turn (x : Crew α) (n : Nat) : Crew α :=
  match x.calls[n]? with
  | none => x
  | some p => ⟨(p.advance x.desk).2, x.calls.set n (p.advance x.desk).1⟩

def after (x : Crew α) (turns : List Nat) : Crew α := turns.foldl turn x

def isDone : Procedure α → Bool
  | .done _ => true
  | .act _ _ => false

def Over (x : Crew α) : Prop := ∀ p ∈ x.calls, isDone p = true

def value? : Procedure α → Option α
  | .done (.ok a) => some a
  | _ => none

def values (x : Crew α) : List α := x.calls.filterMap value?

end Crew

namespace Service

/-! How far a call has come. -/

/-- A call that exports a report, with what it has read and written so far. -/
inductive Export where
  | asked
  | sawOrder (order : Order)
  | sawTable (order : Order) (merged : Merged)
  | wrote (order : Order) (reference : String)
  | recorded (order : Order) (reference : String)
  | ended (result : Except ServiceFault String)

namespace Export

variable (policy : Policy) (id : String)

def telling (order : Order) (reference : String) : Procedure String := do
  Procedure.announce policy (ProgressEvent.ofOrder order .reportExported reference)
  pure reference

def recording (order : Order) (reference : String) : Procedure String := do
  Procedure.store (Store.setReportPaths id (order.reportPaths ++ [reference]))
  telling policy order reference

def writing (order : Order) (merged : Merged) : Procedure String := do
  let reference ← Procedure.writeBlob policy ("reports/" ++ id) "merged.csv"
    (Text.Utf8.ofText merged.table.toCsv)
  recording policy id order reference

def rest : Export → Procedure String
  | .asked => exportReport policy id
  | .sawOrder order => do
    let merged ← mergedTable id
    writing policy id order merged
  | .sawTable order merged => writing policy id order merged
  | .wrote order reference => recording policy id order reference
  | .recorded order reference => telling policy order reference
  | .ended result => .done result

def advance (x : Export) (d : Desk) : Export × Desk :=
  match x with
  | .asked =>
    match d.store.order id with
    | .ok order => (.sawOrder order, d)
    | .error fault => (.ended (.error (.order fault)), d)
  | .sawOrder order =>
    match d.store.merged.get? id with
    | some merged => (.sawTable order merged, d)
    | none => (.ended (.error (.order (.noMergedTable id))), d)
  | .sawTable order merged =>
    match policy.blobs.write d.disk ("reports/" ++ id) "merged.csv"
        (Text.Utf8.ofText merged.table.toCsv) with
    | (.ok reference, disk) => (.wrote order reference, { d with disk })
    | (.error fault, disk) => (.ended (.error (.blob fault)), { d with disk })
  | .wrote order reference =>
    (.recorded order reference, { d with store := d.store.updateOrder id fun o =>
      { o with reportPaths := order.reportPaths ++ [reference] } })
  | .recorded order reference =>
    if policy.announces then
      (.ended (.ok reference), { d with
        events := d.events ++ [ProgressEvent.ofOrder order .reportExported reference] })
    else (.recorded order reference, d)
  | .ended result => (.ended result, d)

theorem advance_writeBlob {α : Type} {directory filename : String} {content : Octets}
    {f : String → Procedure α} (d : Desk) :
    (Procedure.writeBlob policy directory filename content >>= f).advance d =
      (Procedure.need
        ((policy.blobs.write d.disk directory filename content).1.mapError .blob) >>= f,
        { d with disk := (policy.blobs.write d.disk directory filename content).2 }) := rfl

/-- A call does what is left of it, one action after the other. -/
theorem rest_advance (x : Export) (d : Desk) : (x.rest policy id).advance d =
    ((x.advance policy id d).1.rest policy id, (x.advance policy id d).2) := by
  cases x with
  | asked =>
    change (Procedure.need ((d.store.order id).mapError .order) >>= _, d) = _
    rw [advance]
    cases d.store.order id with
    | ok order => rfl
    | error fault => rfl
  | sawOrder order =>
    change ((match d.store.merged.get? id with
      | some merged => pure merged
      | none => Procedure.need (.error (.order (.noMergedTable id)))) >>= _, d) = _
    rw [advance]
    cases d.store.merged.get? id with
    | some merged => rfl
    | none => rfl
  | sawTable order merged =>
    rw [rest, writing, advance_writeBlob, advance]
    cases policy.blobs.write d.disk ("reports/" ++ id) "merged.csv"
        (Text.Utf8.ofText merged.table.toCsv) with
    | mk written disk =>
      cases written with
      | ok reference => rfl
      | error fault => rfl
  | wrote order reference => rfl
  | recorded order reference =>
    by_cases hannounces : policy.announces = true
    · rw [rest, telling, Procedure.announce, advance, if_pos hannounces, if_pos hannounces]
      rfl
    · rw [rest, telling, Procedure.announce, advance, if_neg hannounces, if_neg hannounces, rest,
        telling, Procedure.announce, if_neg hannounces]
      rfl
  | ended result => rfl

/-- The reports that a call has read and did not record its own after yet. -/
def read? : Export → Option (List String)
  | .sawOrder order | .sawTable order _ | .wrote order _ => some order.reportPaths
  | _ => none

def recorded? : Export → Option String
  | .recorded _ reference | .ended (.ok reference) => some reference
  | _ => none

def written? : Export → Option String
  | .wrote _ reference | .recorded _ reference | .ended (.ok reference) => some reference
  | _ => none

/-- What an action of a call can do while the order is `o`. -/
inductive Acts (policy : Policy) (id : String) (o : Order) (x : Export) (d : Desk) (x' : Export)
    (d' : Desk) : Prop
  /-- The store stays, no report comes, and what the call has read is no older than before. -/
  | looks (unready : ∀ order reference, x ≠ .wrote order reference)
      (store : d'.store = d.store) (disk : d.disk.Within d'.disk)
      (recorded : x'.recorded? = x.recorded?) (written : x'.written? = x.written?)
      (read : ∀ paths, x'.read? = some paths → x.read? = some paths ∨ paths = o.reportPaths)
  /-- A report is written under a new reference. -/
  | writes (reference : String) (store : d'.store = d.store) (disk : d.disk.Within d'.disk)
      (recorded : x'.recorded? = x.recorded?) (unwritten : x.written? = none)
      (written : x'.written? = some reference) (read : x'.read? = x.read?)
      (fresh : d.disk.hasPath (policy.blobs.pathOf reference) = false)
      (there : d'.disk.hasPath (policy.blobs.pathOf reference) = true)
  /-- The report is recorded after those that the call has read. -/
  | records (order : Order) (reference : String) (before : x = .wrote order reference)
      (now : x' = .recorded order reference) (disk : d'.disk = d.disk)
      (listed : d'.store.order? id =
        some { o with reportPaths := order.reportPaths ++ [reference] })

variable {policy : Policy} {id : String}

theorem advance_acts (x : Export) {d : Desk} {o : Order} (ho : d.store.order? id = some o) :
    Acts policy id o x d (x.advance policy id d).1 (x.advance policy id d).2 := by
  cases x with
  | asked =>
    rw [advance, Store.order_eq_ok.mpr ho]
    exact .looks (fun _ _ h => nomatch h) rfl (.refl _) rfl rfl fun paths hpaths =>
      .inr (Option.some.inj hpaths).symm
  | sawOrder order =>
    rw [advance]
    cases d.store.merged.get? id with
    | some merged =>
      exact .looks (fun _ _ h => nomatch h) rfl (.refl _) rfl rfl fun _ hpaths => .inl hpaths
    | none => exact .looks (fun _ _ h => nomatch h) rfl (.refl _) rfl rfl nofun
  | sawTable order merged =>
    have hwithin := policy.blobs.within_write d.disk ("reports/" ++ id) "merged.csv"
      (Text.Utf8.ofText merged.table.toCsv)
    rw [advance]
    cases hwrite : policy.blobs.write d.disk ("reports/" ++ id) "merged.csv"
        (Text.Utf8.ofText merged.table.toCsv) with
    | mk written disk =>
      rw [hwrite] at hwithin
      cases written with
      | ok reference =>
        obtain ⟨hfresh, hthere⟩ := Blobs.write_ok hwrite
        exact .writes reference rfl hwithin rfl rfl rfl rfl hfresh hthere
      | error fault => exact .looks (fun _ _ h => nomatch h) rfl hwithin rfl rfl nofun
  | wrote order reference =>
    refine .records order reference rfl rfl rfl ?_
    change (d.store.updateOrder id _).order? id = _
    rw [Store.order?_updateOrder fun _ => by rfl, if_pos rfl, ho]
    rfl
  | recorded order reference =>
    rw [advance]
    split
    · exact .looks (fun _ _ h => nomatch h) rfl (.refl _) rfl rfl nofun
    · exact .looks (fun _ _ h => nomatch h) rfl (.refl _) rfl rfl nofun
  | ended result => exact .looks (fun _ _ h => nomatch h) rfl (.refl _) rfl rfl nofun

/-- A call that has come to an end has recorded the report that it gives. -/
theorem rest_done {x : Export} (h : Crew.isDone (x.rest policy id) = true) :
    Crew.value? (x.rest policy id) = x.recorded? ∧ x.written? = x.recorded? := by
  cases x with
  | asked => cases h
  | sawOrder order => cases h
  | sawTable order merged => cases h
  | wrote order reference => cases h
  | recorded order reference =>
    refine ⟨?_, rfl⟩
    rw [rest, telling, Procedure.announce] at h ⊢
    split at h
    · cases h
    · rename_i hsilent
      rw [if_neg hsilent]
      rfl
  | ended result =>
    cases result with
    | ok reference => exact ⟨rfl, rfl⟩
    | error fault => exact ⟨rfl, rfl⟩

end Export

/-! Calls that take turns. -/

structure Exports where
  desk : Desk
  calls : List Export

namespace Exports

variable (policy : Policy) (id : String)

def start (d : Desk) (count : Nat) : Exports := ⟨d, List.replicate count .asked⟩

def turn (x : Exports) (n : Nat) : Exports :=
  match x.calls[n]? with
  | none => x
  | some c => ⟨(c.advance policy id x.desk).2, x.calls.set n (c.advance policy id x.desk).1⟩

def after (x : Exports) (turns : List Nat) : Exports := turns.foldl (turn policy id) x

/-- Each call with what is left to do. -/
def crew (x : Exports) : Crew String := ⟨x.desk, x.calls.map (·.rest policy id)⟩

/-- Whether a call is about to record its report after a list of reports that the order
has no more. -/
def isStale (x : Exports) (n : Nat) : Bool :=
  match x.calls[n]?, x.desk.store.order? id with
  | some (.wrote order _), some now => now.reportPaths != order.reportPaths
  | _, _ => false

/-- Whether nobody records a report after a list that has changed since it was read. -/
def timely (x : Exports) : List Nat → Bool
  | [] => true
  | n :: rest => !x.isStale id n && (x.turn policy id n).timely rest

theorem crew_turn (x : Exports) (n : Nat) :
    (x.turn policy id n).crew policy id = (x.crew policy id).turn n := by
  rw [turn, Crew.turn, crew, crew, List.getElem?_map]
  cases x.calls[n]? with
  | none => rfl
  | some c => simp only [Option.map_some, Export.rest_advance, List.map_set]

/-- The calls do what their procedures do. -/
theorem crew_after (x : Exports) (turns : List Nat) :
    (x.after policy id turns).crew policy id = (x.crew policy id).after turns := by
  induction turns generalizing x with
  | nil => rfl
  | cons n rest ih =>
    exact (ih (x.turn policy id n)).trans (congrArg (Crew.after · rest) (crew_turn policy id x n))

theorem crew_start (d : Desk) (count : Nat) : (start d count).crew policy id =
    ⟨d, List.replicate count (exportReport policy id)⟩ := by
  rw [crew, start, List.map_replicate]
  rfl

/-! What a turn can do. -/

section

variable {policy : Policy} {id : String} {x : Exports} {n : Nat} {o : Order} {base : List String}

/-- The entry at a place can be exchanged for another one. -/
theorem set_split {α : Type} {l : List α} {a : α} (h : l[n]? = some a) :
    ∃ before after, l = before ++ a :: after ∧ ∀ b, l.set n b = before ++ b :: after := by
  induction l generalizing n with
  | nil => simp at h
  | cons head rest ih =>
    cases n with
    | zero => exact ⟨[], rest, by simpa using h, fun b => rfl⟩
    | succ n =>
      obtain ⟨before, after, hrest, hset⟩ := ih (n := n) (by simpa using h)
      refine ⟨head :: before, after, by rw [hrest]; rfl, fun b => ?_⟩
      rw [List.set_cons_succ, hset]
      rfl

theorem turn_cases (policy : Policy) (n : Nat) (ho : x.desk.store.order? id = some o) :
    x.turn policy id n = x ∧ x.isStale id n = false ∨
    ∃ before c after c' d', x.calls[n]? = some c ∧ x.calls = before ++ c :: after ∧
      x.turn policy id n = ⟨d', before ++ c' :: after⟩ ∧
      Export.Acts policy id o c x.desk c' d' := by
  cases hc : x.calls[n]? with
  | none =>
    refine .inl ⟨?_, ?_⟩
    · rw [turn, hc]
    · rw [isStale, hc]
  | some c =>
    obtain ⟨before, after, hsplit, hset⟩ := set_split hc
    refine .inr ⟨before, c, after, _, _, rfl, hsplit, ?_, c.advance_acts ho⟩
    rw [turn, hc]
    simp only [hset]

/-! References. -/

structure Filed (policy : Policy) (x : Exports) : Prop where
  nodup : (x.calls.filterMap Export.written?).Nodup
  there : ∀ reference ∈ x.calls.filterMap Export.written?,
    x.desk.disk.hasPath (policy.blobs.pathOf reference) = true

theorem Filed.turn (h : x.Filed policy) (ho : x.desk.store.order? id = some o) :
    (x.turn policy id n).Filed policy := by
  obtain ⟨hnodup, hthere⟩ := h
  rcases turn_cases policy n ho with
    ⟨hsame, -⟩ | ⟨before, c, after, c', d', -, hcalls, hturn, hacts⟩
  · rw [hsame]
    exact ⟨hnodup, hthere⟩
  rw [hcalls, List.filterMap_append, List.filterMap_cons] at hnodup hthere
  rw [hturn]
  cases hacts with
  | looks _ _ hdisk _ hwritten _ =>
    refine ⟨?_, fun reference hmem => ?_⟩
    · rw [List.filterMap_append, List.filterMap_cons, hwritten]
      exact hnodup
    · rw [List.filterMap_append, List.filterMap_cons, hwritten] at hmem
      exact hdisk.hasPath (hthere reference hmem)
  | writes reference _ hdisk _ hunwritten hwritten _ hfresh hnow =>
    rw [hunwritten] at hnodup hthere
    have hnew : reference ∉
        before.filterMap Export.written? ++ after.filterMap Export.written? := by
      intro hmem
      rw [hthere reference hmem] at hfresh
      cases hfresh
    refine ⟨?_, fun other hmem => ?_⟩
    · rw [List.filterMap_append, List.filterMap_cons, hwritten]
      exact List.perm_middle.symm.nodup (List.nodup_cons.mpr ⟨hnew, hnodup⟩)
    · rw [List.filterMap_append, List.filterMap_cons, hwritten] at hmem
      rcases List.mem_cons.mp (List.perm_middle.mem_iff.mp hmem) with rfl | hold
      · exact hnow
      · exact hdisk.hasPath (hthere other hold)
  | records order reference hbefore hnow hdisk _ =>
    subst hbefore hnow
    refine ⟨?_, fun other hmem => ?_⟩
    · rw [List.filterMap_append]
      exact hnodup
    · rw [List.filterMap_append] at hmem
      rw [hdisk]
      exact hthere other hmem

/-! Lists of reports. -/

def recorded (x : Exports) : List String := x.calls.filterMap Export.recorded?

/-- What a turn does to the list of reports, and to the lists that calls have read. -/
inductive Lists (id : String) (n : Nat) (o : Order) (x y : Exports) : Prop
  | keeps (fresh : x.isStale id n = false) (order : y.desk.store.order? id = some o)
      (recorded : y.recorded = x.recorded)
      (read : ∀ c ∈ y.calls, ∀ paths, c.read? = some paths →
        paths = o.reportPaths ∨ ∃ b ∈ x.calls, b.read? = some paths)
  | records (paths : List String) (reference : String)
      (stale : x.isStale id n = (o.reportPaths != paths))
      (seen : ∃ b ∈ x.calls, b.read? = some paths)
      (order : y.desk.store.order? id = some { o with reportPaths := paths ++ [reference] })
      (recorded : y.recorded.Perm (reference :: x.recorded))
      (read : ∀ c ∈ y.calls, ∀ others, c.read? = some others →
        ∃ b ∈ x.calls, b.read? = some others)

theorem turn_lists (policy : Policy) (n : Nat) (ho : x.desk.store.order? id = some o) :
    Lists id n o x (x.turn policy id n) := by
  rcases turn_cases policy n ho with
    ⟨hsame, hfresh⟩ | ⟨before, c, after, c', d', hc, hcalls, hturn, hacts⟩
  · rw [hsame]
    exact .keeps hfresh ho rfl fun b hb paths hpaths => .inr ⟨b, hb, hpaths⟩
  have hthere : c ∈ x.calls := List.mem_of_getElem? hc
  have hrest : ∀ b ∈ before ++ c' :: after, b = c' ∨ b ∈ x.calls := by
    intro b hb
    rw [hcalls]
    simp only [List.mem_append, List.mem_cons] at hb ⊢
    tauto
  have hstays (hunready : ∀ order reference, c ≠ .wrote order reference)
      (hstore : d'.store = x.desk.store)
      (hrecorded : c'.recorded? = c.recorded?)
      (hread : ∀ paths, c'.read? = some paths → c.read? = some paths ∨ paths = o.reportPaths) :
      Lists id n o x (x.turn policy id n) := by
    rw [hturn]
    refine .keeps ?_ (by rw [hstore, ho]) ?_ fun b hb paths hpaths => ?_
    · rw [isStale, hc, ho]
      cases c with
      | wrote order reference => exact absurd rfl (hunready order reference)
      | _ => rfl
    · rw [recorded, recorded, hcalls, List.filterMap_append, List.filterMap_append,
        List.filterMap_cons, List.filterMap_cons, hrecorded]
    · rcases hrest b hb with rfl | hold
      · exact (hread paths hpaths).symm.imp_right fun hseen => ⟨c, hthere, hseen⟩
      · exact .inr ⟨b, hold, hpaths⟩
  cases hacts with
  | looks hunready hstore _ hrecorded _ hread => exact hstays hunready hstore hrecorded hread
  | writes reference hstore _ hrecorded hunwritten _ hread _ _ =>
    refine hstays ?_ hstore hrecorded fun paths hpaths => .inl (hread ▸ hpaths)
    rintro order reference rfl
    cases hunwritten
  | records order reference hbefore hnow _ hlisted =>
    subst hbefore hnow
    rw [hturn]
    refine .records order.reportPaths reference ?_ ⟨_, hthere, rfl⟩ hlisted ?_ fun b hb => ?_
    · rw [isStale, hc, ho]
    · rw [recorded, recorded, hcalls, List.filterMap_append, List.filterMap_append]
      exact List.perm_middle
    · rcases hrest b hb with rfl | hold
      · exact nofun
      · exact fun others hothers => ⟨b, hold, hothers⟩

/-- The order lists every report recorded after those of `base`, and a call that has
not recorded its own has read this list or a shorter one. -/
structure Whole (id : String) (base : List String) (x : Exports) (o : Order) : Prop where
  order : x.desk.store.order? id = some o
  listed : ∃ references, references.Perm x.recorded ∧ o.reportPaths = base ++ references
  read : ∀ c ∈ x.calls, ∀ paths, c.read? = some paths →
    paths = o.reportPaths ∨ paths.length < o.reportPaths.length

/-- The order lists fewer reports than were recorded, and so does every list that a call
has read. -/
structure Short (id : String) (base : List String) (x : Exports) (o : Order) : Prop where
  order : x.desk.store.order? id = some o
  listed : o.reportPaths.length < base.length + x.recorded.length
  read : ∀ c ∈ x.calls, ∀ paths, c.read? = some paths →
    paths.length < base.length + x.recorded.length

theorem Whole.length (h : x.Whole id base o) :
    o.reportPaths.length = base.length + x.recorded.length := by
  obtain ⟨references, hperm, hlisted⟩ := h.listed
  rw [hlisted, List.length_append, hperm.length_eq]

/-- Nothing is lost by a call that records its report after the list as it is. -/
theorem Whole.turn (policy : Policy) (h : x.Whole id base o) (hfresh : x.isStale id n = false) :
    ∃ o', (x.turn policy id n).Whole id base o' := by
  cases turn_lists policy n h.order with
  | keeps _ horder hrecorded hread =>
    refine ⟨o, horder, ?_, fun c hc paths hpaths => ?_⟩
    · rw [hrecorded]
      exact h.listed
    · rcases hread c hc paths hpaths with hnow | ⟨b, hb, hseen⟩
      · exact .inl hnow
      · exact h.read b hb paths hseen
  | records paths reference hstale _ horder hrecorded hread =>
    obtain rfl : o.reportPaths = paths := by
      rw [hstale, bne_eq_false_iff_eq] at hfresh
      exact hfresh
    obtain ⟨references, hperm, hlisted⟩ := h.listed
    refine ⟨_, horder, ⟨references ++ [reference], ?_, ?_⟩, fun c hc others hothers => .inr ?_⟩
    · calc
        (references ++ [reference]).Perm (reference :: references) := List.perm_append_singleton _ _
        List.Perm _ (reference :: x.recorded) := hperm.cons reference
        List.Perm _ _ := hrecorded.symm
    · rw [hlisted, List.append_assoc]
    · obtain ⟨b, hb, hseen⟩ := hread c hc others hothers
      have hold := h.read b hb others hseen
      rw [List.length_append, List.length_singleton]
      rcases hold with rfl | hshorter
      · omega
      · omega

/-- A call that records its report after another list loses one. -/
theorem Whole.turn_stale (policy : Policy) (h : x.Whole id base o)
    (hstale : x.isStale id n = true) :
    ∃ o', (x.turn policy id n).Short id base o' := by
  have hlength := h.length
  have hread : ∀ c ∈ x.calls, ∀ paths, c.read? = some paths →
      paths = o.reportPaths ∨ paths.length < o.reportPaths.length := h.read
  cases turn_lists policy n h.order with
  | keeps hfresh _ _ _ =>
    rw [hfresh] at hstale
    cases hstale
  | records paths reference hother hseen horder hrecorded hold =>
    rw [hother, bne_iff_ne] at hstale
    obtain ⟨b, hb, hpaths⟩ := hseen
    have hshorter := (h.read b hb paths hpaths).resolve_left fun hsame => hstale hsame.symm
    refine ⟨_, horder, ?_, fun c hc others hothers => ?_⟩
    · rw [hrecorded.length_eq, List.length_append, List.length_singleton, List.length_cons]
      omega
    · obtain ⟨b, hb, hothers⟩ := hold c hc others hothers
      have hle : others.length ≤ o.reportPaths.length := by
        rcases h.read b hb others hothers with rfl | hlt
        · exact Nat.le_refl _
        · exact Nat.le_of_lt hlt
      rw [hrecorded.length_eq, List.length_cons]
      omega

/-- What is lost does not come back. -/
theorem Short.turn (policy : Policy) (n : Nat) (h : x.Short id base o) :
    ∃ o', (x.turn policy id n).Short id base o' := by
  have hlisted := h.listed
  cases turn_lists policy n h.order with
  | keeps _ horder hrecorded hread =>
    refine ⟨o, horder, ?_, fun c hc paths hpaths => ?_⟩
    · rw [hrecorded]
      exact hlisted
    · rw [hrecorded]
      rcases hread c hc paths hpaths with rfl | ⟨b, hb, hseen⟩
      · exact hlisted
      · exact h.read b hb paths hseen
  | records paths reference _ hseen horder hrecorded hread =>
    obtain ⟨b, hb, hpaths⟩ := hseen
    have hshorter := h.read b hb paths hpaths
    refine ⟨_, horder, ?_, fun c hc others hothers => ?_⟩
    · rw [hrecorded.length_eq, List.length_append, List.length_singleton, List.length_cons]
      omega
    · obtain ⟨b, hb, hothers⟩ := hread c hc others hothers
      have hlt := h.read b hb others hothers
      rw [hrecorded.length_eq, List.length_cons]
      omega

/-! Runs. -/

theorem Short.after (policy : Policy) (h : x.Short id base o) (turns : List Nat) :
    ∃ o', (x.after policy id turns).Short id base o' := by
  induction turns generalizing x o with
  | nil => exact ⟨o, h⟩
  | cons n rest ih =>
    obtain ⟨o', h'⟩ := h.turn policy n
    exact ih h'

/-- The list is whole as long as everybody is timely, and lacks a report from the first
time on that somebody is not. -/
theorem Whole.after (policy : Policy) (h : x.Whole id base o) (turns : List Nat) : ∃ o',
    if x.timely policy id turns then (x.after policy id turns).Whole id base o'
    else (x.after policy id turns).Short id base o' := by
  induction turns generalizing x o with
  | nil => exact ⟨o, h⟩
  | cons n rest ih =>
    cases hstale : x.isStale id n with
    | false =>
      obtain ⟨o', h'⟩ := h.turn policy hstale
      rw [timely, hstale, Bool.not_false, Bool.true_and]
      exact ih h'
    | true =>
      obtain ⟨o', h'⟩ := h.turn_stale policy hstale
      rw [timely, hstale, Bool.not_true, Bool.false_and]
      exact h'.after policy rest

theorem Filed.after (h : x.Filed policy) (ho : x.desk.store.order? id = some o)
    (turns : List Nat) : (x.after policy id turns).Filed policy := by
  induction turns generalizing x o with
  | nil => exact h
  | cons n rest ih =>
    obtain ⟨o', ho'⟩ : ∃ o', (x.turn policy id n).desk.store.order? id = some o' := by
      cases turn_lists policy n ho with
      | keeps _ horder _ _ => exact ⟨_, horder⟩
      | records _ _ _ _ horder _ _ => exact ⟨_, horder⟩
    exact ih (h.turn ho) ho'

end

end Exports

/-! The list of reports once all calls have returned. -/

/-- Once all calls that export reports of an order have returned, no two of them gave the
same reference, and the order lists all the references after the reports that it had
exactly if each call recorded its report while the order still listed the reports that
the call had read. What each call had read is told by `Exports`, which take the same
turns. -/
theorem exports_listed_iff_timely (policy : Policy) {id : String} {d : Desk} {o : Order}
    (ho : d.store.order? id = some o) (count : Nat) (turns : List Nat) {e : Crew String}
    (he : (Crew.mk d (List.replicate count (exportReport policy id))).after turns = e)
    (hover : e.Over) :
    ((Exports.start d count).after policy id turns).crew policy id = e ∧ e.values.Nodup ∧
    ∃ p, e.desk.store.order? id = some p ∧
      ((∃ references, references.Perm e.values ∧ p.reportPaths = o.reportPaths ++ references) ↔
        (Exports.start d count).timely policy id turns = true) := by
  rw [← Exports.crew_start, ← Exports.crew_after] at he
  subst he
  let x := (Exports.start d count).after policy id turns
  have hdone : ∀ c ∈ x.calls, Crew.isDone (c.rest policy id) = true := fun c hc =>
    hover _ (List.mem_map_of_mem hc)
  have hvalues : (x.crew policy id).values = x.recorded := by
    rw [Crew.values, Exports.crew, List.filterMap_map]
    exact List.filterMap_congr fun c hc => (Export.rest_done (hdone c hc)).1
  have hwritten : x.calls.filterMap Export.written? = x.recorded :=
    List.filterMap_congr fun c hc => (Export.rest_done (hdone c hc)).2
  have hnone : ∀ {α : Type} (f : Export → Option α), f .asked = none →
      (Exports.start d count).calls.filterMap f = [] := by
    intro α f hf
    exact List.filterMap_eq_nil_iff.mpr fun c hc => by rw [List.eq_of_mem_replicate hc, hf]
  have hfiled : x.Filed policy := by
    refine Exports.Filed.after ⟨?_, ?_⟩ ho turns
    · rw [hnone _ rfl]
      exact List.nodup_nil
    · rw [hnone _ rfl]
      exact nofun
  have hstart : (Exports.start d count).Whole id o.reportPaths o := by
    refine ⟨ho, ⟨[], ?_, (List.append_nil _).symm⟩, fun c hc paths hpaths => ?_⟩
    · rw [Exports.recorded, hnone _ rfl]
    · rw [List.eq_of_mem_replicate hc] at hpaths
      cases hpaths
  obtain ⟨p, hp⟩ := hstart.after policy turns
  refine ⟨rfl, by rw [hvalues, ← hwritten]; exact hfiled.nodup, p, ?_⟩
  rw [hvalues]
  split at hp
  · rename_i htimely
    exact ⟨hp.order, iff_of_true hp.listed htimely⟩
  · rename_i hlate
    refine ⟨hp.order, iff_of_false ?_ hlate⟩
    rintro ⟨references, hperm, hlisted⟩
    have hshort := hp.listed
    rw [hlisted, List.length_append, hperm.length_eq] at hshort
    exact Nat.lt_irrefl _ hshort

/-! An order with a merged table, and two callers who export it. -/

private def reportPolicy : Policy :=
  ⟨.standard, .tolerant, ⟨"b"⟩, fun _ _ _ => .error "", true⟩

private def reportCalls : List Store.Call :=
  [.createOrder "o" none, .saveMerged "o" ⟨⟨["id"], []⟩⟩]

private def reportDesk : Desk :=
  { Desk.empty with store := reportCalls.foldl Store.Call.after Store.empty }

private def reportCrew (turns : List Nat) : Crew String :=
  (Crew.mk reportDesk (List.replicate 2 (exportReport reportPolicy "o"))).after turns

private def oneThenOther : List Nat := [0, 0, 0, 0, 1, 0, 1, 1, 1, 1]

private def sideBySide : List Nat := [0, 1, 0, 1, 0, 1, 0, 1, 0, 1]

/-- The second caller is at work before the first one is done, and both reports are listed. -/
theorem exports_listed_iff_timely_overlapping : reportDesk.store.order? "o" =
      some (Order.create "o" none) ∧ (reportCrew oneThenOther).Over ∧
    (reportCrew oneThenOther).values = ["reports/o/merged.csv", "reports/o/merged_2.csv"] ∧
    ∃ p, (reportCrew oneThenOther).desk.store.order? "o" = some p ∧
      ∃ references, references.Perm (reportCrew oneThenOther).values ∧
        p.reportPaths = (Order.create "o" none).reportPaths ++ references := by
  have ho : reportDesk.store.order? "o" = some (Order.create "o" none) := by decide +kernel
  have hover : (reportCrew oneThenOther).Over := by
    unfold Crew.Over
    decide +kernel
  have htimely : (Exports.start reportDesk 2).timely reportPolicy "o" oneThenOther = true := by
    decide +kernel
  obtain ⟨-, -, p, hp, hlisted⟩ :=
    exports_listed_iff_timely reportPolicy ho 2 oneThenOther rfl hover
  exact ⟨ho, hover, by decide +kernel, p, hp, hlisted.mpr htimely⟩

/-- Two callers who read the order before either has recorded a report: both have returned
a reference, and the order lists the second one only. -/
theorem exists_report_forgotten : ∃ (d : Desk) (turns : List Nat) (e : Crew String) (p : Order),
    d.store.Reached ∧ d.store.merged.contains "o" = true ∧
    d.store.order? "o" = some (Order.create "o" none) ∧
    (Crew.mk d (List.replicate 2 (exportReport reportPolicy "o"))).after turns = e ∧ e.Over ∧
    e.values = ["reports/o/merged.csv", "reports/o/merged_2.csv"] ∧
    e.desk.store.order? "o" = some p ∧ p.reportPaths = ["reports/o/merged_2.csv"] ∧
    ¬ ∃ references, references.Perm e.values ∧
      p.reportPaths = (Order.create "o" none).reportPaths ++ references := by
  have hvalues : (reportCrew sideBySide).values =
      ["reports/o/merged.csv", "reports/o/merged_2.csv"] := by decide +kernel
  refine ⟨reportDesk, sideBySide, reportCrew sideBySide,
    { Order.create "o" none with reportPaths := ["reports/o/merged_2.csv"] },
    Store.Reached.empty.calls reportCalls, by decide +kernel, by decide +kernel, rfl, ?_, hvalues,
    by decide +kernel, rfl, ?_⟩
  · unfold Crew.Over
    decide +kernel
  · rintro ⟨references, hperm, hlisted⟩
    rw [hvalues] at hperm
    have hlength := hperm.length_eq
    rw [← (show _ = references from hlisted)] at hlength
    cases hlength

end Service

end Collate
