import Collate.Json.Decode
import Collate.Proofs.Dict
import Collate.Proofs.Json.Sorted

/-!
What a typed reader makes of a document that was put together from parts. A list or a map
is read back if its parts are, and so is a field that is left out when there is nothing to
say. How the parts were written does not matter: as they are, or with their keys in order.
-/

namespace Collate

namespace Json

/-! Slots of objects. -/

theorem ofFields_eq_map (fields : List (String × Json)) :
    Draft.ofFields fields = fields.map fun f => (f.1, .ofJson f.2) := by
  induction fields with
  | nil => rfl
  | cons field rest ih => rw [Draft.ofFields, ih, List.map_cons]

/-- What an object holds for a field. -/
def slotOf (name : String) : Option Json → Slot
  | some value => .given (.ofJson value)
  | none => .unnamed name

theorem firstRepeated?_of_nodup {names : List String} (h : names.Nodup) :
    firstRepeated? names = none := by
  induction names with
  | nil => rfl
  | cons name rest ih =>
    obtain ⟨hnew, hrest⟩ := List.nodup_cons.mp h
    rw [firstRepeated?, if_neg (by simpa using hnew), ih hrest]

variable {names : List String} {fields : List (String × Json)}

theorem slotOf_lookup (fields : List (String × Json)) (name : String) :
    slotOf name (fields.lookup name) = match (Draft.ofFields fields).lookup name with
      | some value => .given value
      | none => .unnamed name := by
  rw [ofFields_eq_map, lookup_map_snd]
  cases fields.lookup name <;> rfl

/-- The slots of an object are what stands under the names. -/
theorem slots_eq_ok {slot : String → Slot} (h : slots names (.ofJson (.object fields)) = .ok slot) :
    slot = fun name => slotOf name (fields.lookup name) := by
  simp only [Draft.ofJson, slots] at h
  split at h
  · cases h
  · cases h
    exact funext fun name => (slotOf_lookup fields name).symm

theorem slots_of_nodup (h : (fields.map (·.1)).Nodup) :
    slots names (.ofJson (.object fields)) = .ok fun name => slotOf name (fields.lookup name) := by
  have hkeys : ((Draft.ofFields fields).map (·.1)).Nodup := by
    rw [ofFields_eq_map, map_fst_map_snd]
    exact h
  simp only [Draft.ofJson, slots, firstRepeated?_of_nodup (hkeys.filter _)]
  exact congrArg Except.ok (funext fun name => (slotOf_lookup fields name).symm)

def presentFields (fields : List (String × Option Json)) : List (String × Json) :=
  fields.filterMap fun f => f.2.map fun value => (f.1, value)

theorem mem_presentFields {fields : List (String × Option Json)} {field : String × Json} :
    field ∈ presentFields fields ↔ (field.1, some field.2) ∈ fields := by
  simp only [presentFields, List.mem_filterMap, Option.map_eq_some_iff]
  constructor
  · rintro ⟨⟨name, _⟩, hmem, value, rfl, rfl⟩
    exact hmem
  · exact fun h => ⟨_, h, _, rfl, rfl⟩

theorem presentFields_keys (fields : List (String × Option Json)) :
    List.Sublist ((presentFields fields).map (·.1)) (fields.map (·.1)) := by
  induction fields with
  | nil => exact .slnil
  | cons field rest ih =>
    obtain ⟨name, _ | value⟩ := field
    · exact ih.cons _
    · exact ih.cons_cons _

theorem lookup_presentFields {fields : List (String × Option Json)}
    (h : (fields.map (·.1)).Nodup) (name : String) :
    (presentFields fields).lookup name = (fields.lookup name).join := by
  refine Option.ext fun value => ?_
  rw [lookup_eq_some_iff_mem (h.sublist (presentFields_keys fields)), mem_presentFields,
    Option.join_eq_some_iff, lookup_eq_some_iff_mem h]

/-! Parts that are read back. -/

variable {α : Type} {read : Read α} {write : α → Json}

theorem readItems_written {values : List α} (h : ∀ a ∈ values, read (.ofJson (write a)) = .ok a) :
    readItems read (Draft.ofItems (values.map write)) = .ok values := by
  induction values with
  | nil => rfl
  | cons a rest ih =>
    obtain ⟨ha, hrest⟩ := List.forall_mem_cons.mp h
    simp only [List.map_cons, Draft.ofItems, readItems, ha, ih hrest]
    rfl

theorem readList_written {values : List α} (h : ∀ a ∈ values, read (.ofJson (write a)) = .ok a) :
    readList read (.ofJson (.array (values.map write))) = .ok values :=
  readItems_written h

theorem readEntries_written {entries : List (String × α)}
    (h : ∀ e ∈ entries, read (.ofJson (write e.2)) = .ok e.2) :
    readEntries read (Draft.ofFields (entries.map fun e => (e.1, write e.2))) = .ok entries := by
  induction entries with
  | nil => rfl
  | cons e rest ih =>
    obtain ⟨he, hrest⟩ := List.forall_mem_cons.mp h
    simp only [List.map_cons, Draft.ofFields, readEntries, he, ih hrest]
    rfl

theorem readDict_written {d : Dict α} (h : ∀ e ∈ d.entries, read (.ofJson (write e.2)) = .ok e.2) :
    readDict read (.ofJson (.object (d.entries.map fun e => (e.1, write e.2)))) = .ok d := by
  simp only [Draft.ofJson, readDict, readEntries_written h, Except.map, Dict.ofList_entries]

theorem map_some_eq_ok_some (doc : Draft) (a : α) :
    (read doc).map some = .ok (some a) ↔ read doc = .ok a := by
  cases read doc <;> simp [Except.map]

/-- Where a null is read as nothing, it is no value. -/
theorem readOptional_eq_ok_some (hnull : ∀ a, read .null ≠ .ok a) (doc : Draft) (a : α) :
    readOptional read doc = .ok (some a) ↔ read doc = .ok a := by
  unfold readOptional
  split
  · exact iff_of_false nofun (hnull a)
  · exact map_some_eq_ok_some doc a

/-- A field that is left out when there is nothing to say. -/
theorem leftOut_written {reader : Read (Option α)}
    (hsome : ∀ doc a, reader doc = .ok (some a) ↔ read doc = .ok a) {value : Option α}
    (h : ∀ a, value = some a → read (.ofJson (write a)) = .ok a) (name : String) :
    (slotOf name (value.map write)).withDefault none reader = .ok value := by
  cases value with
  | none => rfl
  | some a => exact (hsome _ a).mpr (h a rfl)

end Json

end Collate
