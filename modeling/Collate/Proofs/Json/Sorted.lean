import Collate.Json.Basic
import Collate.Proofs.Dict

/-!
What sorting the keys of a document does. The fields of a sorted object are the entries of
the map of its fields, so under each key stands what stood there before, sorted itself, and
fields that are in key order already stay in place.
-/

namespace Collate

theorem lookup_eq_find {α : Type} (key : String) (entries : List (String × α)) :
    entries.lookup key = Dict.find key entries := by
  induction entries with
  | nil => rfl
  | cons entry rest ih =>
    obtain ⟨k, v⟩ := entry
    rw [List.lookup_cons, Dict.find, ih]
    by_cases hkey : k = key
    · rw [if_pos hkey, hkey, beq_self_eq_true]
    · rw [if_neg hkey, beq_eq_false_iff_ne.mpr (Ne.symm hkey)]

/-- Where no key occurs twice, what is found under a key is the entry of that key. -/
theorem lookup_eq_some_iff_mem {α : Type} {entries : List (String × α)}
    (h : (entries.map (·.1)).Nodup) {key : String} {value : α} :
    entries.lookup key = some value ↔ (key, value) ∈ entries := by
  constructor
  · rw [List.lookup_eq_some_iff]
    rintro ⟨before, after, rfl, -⟩
    exact List.mem_append_right _ List.mem_cons_self
  · intro hmem
    rw [lookup_eq_find, Dict.find_of_mem h hmem]

/-- What is done to each value shows where it is looked up. -/
theorem lookup_map_snd {α β : Type} (f : α → β) (key : String) (entries : List (String × α)) :
    (entries.map fun e => (e.1, f e.2)).lookup key = (entries.lookup key).map f := by
  induction entries with
  | nil => rfl
  | cons entry rest ih =>
    rw [List.map_cons, List.lookup_cons, List.lookup_cons, ih]
    cases key == entry.1 <;> rfl

theorem map_fst_map_snd {α β : Type} (f : α → β) (entries : List (String × α)) :
    (entries.map fun e => (e.1, f e.2)).map (·.1) = entries.map (·.1) := by
  rw [List.map_map]
  rfl

namespace Json

variable {fields : List (String × Json)}

theorem sortedItems_eq_map (items : List Json) : sortedItems items = items.map sorted := by
  induction items with
  | nil => rfl
  | cons item rest ih => rw [sortedItems, ih, List.map_cons]

theorem sortedFields_eq (d : Dict Json) (fields : List (String × Json)) :
    sortedFields d.entries fields =
      (d.insertAll (fields.map fun f => (f.1, f.2.sorted))).entries := by
  induction fields generalizing d with
  | nil => rfl
  | cons field rest ih => exact ih (d.insert field.1 field.2.sorted)

def sortedDict (fields : List (String × Json)) : Dict Json :=
  .ofList (fields.map fun f => (f.1, f.2.sorted))

@[simp] theorem sorted_array (items : List Json) :
    (Json.array items).sorted = .array (items.map sorted) := by
  rw [sorted, sortedItems_eq_map]

@[simp] theorem sorted_object (fields : List (String × Json)) :
    (Json.object fields).sorted = .object (sortedDict fields).entries :=
  congrArg Json.object (sortedFields_eq Dict.empty fields)

/-- Under keys that occur once there is what was there before, sorted. -/
theorem lookup_sortedDict (h : (fields.map (·.1)).Nodup) (key : String) :
    (sortedDict fields).entries.lookup key = (fields.lookup key).map sorted := by
  have hkeys : ((fields.map fun f => (f.1, f.2.sorted)).map (·.1)).Nodup := by
    rw [map_fst_map_snd]
    exact h
  have hget := Dict.get?_ofList hkeys key
  rw [Dict.get?, ← lookup_eq_find, ← lookup_eq_find, lookup_map_snd] at hget
  exact hget

/-- The entries of a map stay in place. -/
theorem sortedDict_entries {α : Type} (write : α → Json) (d : Dict α) :
    (sortedDict (d.entries.map fun e => (e.1, write e.2))).entries =
      d.entries.map fun e => (e.1, (write e.2).sorted) := by
  have hkeys : KeysIncrease (d.entries.map fun e => (e.1, (write e.2).sorted)) := by
    rw [KeysIncrease, List.pairwise_map]
    exact d.increasing
  rw [sortedDict, List.map_map]
  exact congrArg Dict.entries (Dict.ofList_entries ⟨_, hkeys⟩)

end Json

end Collate
