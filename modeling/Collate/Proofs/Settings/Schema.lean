import Collate.Proofs.Json.Sorted
import Collate.Settings.Schema

/-!
Documents that fit a schema. Where a document stands makes no difference to what is wrong
with it, so a container fits exactly if its parts do: a list if every element fits, a map
if every value does, and a record if the fields it must have are there, those it may have
fit, and there are no others.
-/

namespace Collate.Schema

def Fits (schema : Schema) (doc : Json) : Prop :=
  schema.check [] doc = []

theorem map_fault_atPath (path : List String) (faults : List Fault) :
    (atPath path faults).map (·.fault) = faults := by
  rw [atPath, List.map_map]
  exact List.map_id faults

mutual

/-- The same is wrong with a document wherever it stands. -/
theorem map_fault_check (path other : List String) : ∀ (schema : Schema) (doc : Json),
    (schema.check path doc).map (·.fault) = (schema.check other doc).map (·.fault)
  | .text _, _ | .nullableText, _ | .constant _, _ | .choice _, _ | .truth, _ | .whole _, _ => by
    simp only [check, map_fault_atPath]
  | .list element, doc => by
    cases doc with
    | array items =>
      simp only [check, List.map_flatMap]
      refine congrArg items.zipIdx.flatMap (funext fun place => ?_)
      exact map_fault_check _ _ element place.1
    | _ => simp only [check, map_fault_atPath]
  | .record required fields, doc => by
    cases doc with
    | object given =>
      simp only [check, List.map_append, map_fault_atPath,
        map_fault_checkFields path other given fields]
    | _ => simp only [check, map_fault_atPath]
  | .map value, doc => by
    cases doc with
    | object given =>
      simp only [check, List.map_flatMap]
      refine congrArg given.flatMap (funext fun field => ?_)
      exact map_fault_check _ _ value field.2
    | _ => simp only [check, map_fault_atPath]

theorem map_fault_checkFields (path other : List String) (given : List (String × Json)) :
    ∀ fields : List (String × Schema), (checkFields path given fields).map (·.fault) =
      (checkFields other given fields).map (·.fault)
  | [] => rfl
  | (key, schema) :: rest => by
    simp only [checkFields, List.map_append, map_fault_checkFields path other given rest]
    cases given.lookup key with
    | none => rfl
    | some value => rw [map_fault_check (path ++ [key]) (other ++ [key]) schema value]

end

variable {doc : Json} {path : List String}

theorem check_eq_nil_iff {schema : Schema} : schema.check path doc = [] ↔ schema.Fits doc := by
  rw [Fits, ← List.map_eq_nil_iff, map_fault_check path [] schema doc, List.map_eq_nil_iff]

theorem atPath_eq_nil_iff {faults : List Fault} : atPath path faults = [] ↔ faults = [] :=
  List.map_eq_nil_iff

theorem kindFault_eq_nil_iff {holds : Bool} {name : String} :
    kindFault holds doc name = [] ↔ holds = true := by
  cases holds <;> simp [kindFault]

theorem fits_text_iff {least : Nat} :
    (text least).Fits doc ↔ ∃ s, doc = .string s ∧ least ≤ s.length := by
  cases doc <;> simp [Fits, check, atPath_eq_nil_iff, kindFault_eq_nil_iff, isText, lengthFault]

theorem fits_nullableText_iff :
    nullableText.Fits doc ↔ doc = .null ∨ ∃ s, doc = .string s := by
  cases doc <;> simp [Fits, check, atPath_eq_nil_iff]

theorem fits_choice_iff {values : List String} :
    (choice values).Fits doc ↔ ∃ s ∈ values, doc = .string s := by
  cases doc <;> simp [Fits, check, atPath_eq_nil_iff, kindFault_eq_nil_iff, isText, isAmong]

theorem fits_constant_iff {value : String} : (constant value).Fits doc ↔ doc = .string value := by
  cases doc <;> simp [Fits, check, atPath_eq_nil_iff, kindFault_eq_nil_iff, isText, isAmong]

theorem fits_truth_iff : truth.Fits doc ↔ ∃ b, doc = .bool b := by
  cases doc <;> simp [Fits, check, atPath_eq_nil_iff, kindFault_eq_nil_iff]

/-- A whole number fits if it is not below the least one. -/
theorem fits_whole_integer_iff {least : Option Int} {n : Int} :
    (whole least).Fits (.number (.integer n)) ↔ ∀ m, least = some m → m ≤ n := by
  cases least <;>
    simp [Fits, check, atPath_eq_nil_iff, kindFault_eq_nil_iff, isWholeNumber, Number.isWhole,
      leastFault, Number.isBelow]

theorem fits_list_iff {element : Schema} :
    (list element).Fits doc ↔ ∃ items, doc = .array items ∧ ∀ item ∈ items, element.Fits item := by
  cases doc with
  | array items =>
    simp only [Fits, check, List.flatMap_eq_nil_iff]
    simp only [Json.array.injEq, exists_eq_left', check_eq_nil_iff]
    constructor
    · intro h item hitem
      obtain ⟨n, hn, rfl⟩ := List.mem_iff_getElem.mp hitem
      exact h (items[n], n) (List.mk_mem_zipIdx_iff_getElem?.mpr (List.getElem?_eq_getElem hn))
    · exact fun h place hplace => h place.1 (List.fst_mem_of_mem_zipIdx hplace)
  | _ => simp [Fits, check, atPath_eq_nil_iff, kindFault_eq_nil_iff]

theorem fits_map_iff {value : Schema} :
    (map value).Fits doc ↔
      ∃ fields, doc = .object fields ∧ ∀ field ∈ fields, value.Fits field.2 := by
  cases doc with
  | object fields =>
    simp only [Fits, check, List.flatMap_eq_nil_iff]
    simp only [Json.object.injEq, exists_eq_left', check_eq_nil_iff]
  | _ => simp [Fits, check, atPath_eq_nil_iff, kindFault_eq_nil_iff]

theorem checkFields_eq_nil_iff {given : List (String × Json)} {fields : List (String × Schema)} :
    checkFields path given fields = [] ↔
      ∀ field ∈ fields, ∀ v, given.lookup field.1 = some v → field.2.Fits v := by
  induction fields with
  | nil => simp [checkFields]
  | cons field rest ih =>
    rw [checkFields, List.append_eq_nil_iff, ih, List.forall_mem_cons]
    refine and_congr_left' ?_
    cases given.lookup field.1 with
    | none => simp
    | some v => simp [check_eq_nil_iff]

/-- What it takes for the fields of an object to fit a record. -/
structure FitsRecord (required : List String) (fields : List (String × Schema))
    (given : List (String × Json)) : Prop where
  there : ∀ key ∈ required, (given.lookup key).isSome
  fits : ∀ field ∈ fields, ∀ v, given.lookup field.1 = some v → field.2.Fits v
  known : ∀ key ∈ given.map (·.1), key ∈ fields.map (·.1)

theorem fits_record_iff {required : List String} {fields : List (String × Schema)} :
    (record required fields).Fits doc ↔
      ∃ given, doc = .object given ∧ FitsRecord required fields given := by
  cases doc with
  | object given =>
    have hunknown : unknownFields (fields.map (·.1)) given = [] ↔
        ∀ key ∈ given.map (·.1), key ∈ fields.map (·.1) := by
      simp [unknownFields, List.filter_eq_nil_iff]
    simp only [Fits, check, List.append_eq_nil_iff, atPath_eq_nil_iff, checkFields_eq_nil_iff,
      List.map_eq_nil_iff, List.filter_eq_nil_iff, Json.object.injEq, exists_eq_left']
    constructor
    · rintro ⟨⟨hthere, hfits⟩, hknown⟩
      refine ⟨fun key hkey => ?_, hfits, hunknown.mp ?_⟩
      · simpa using hthere key hkey
      · simpa using hknown
    · rintro ⟨hthere, hfits, hknown⟩
      refine ⟨⟨fun key hkey => ?_, hfits⟩, ?_⟩
      · simpa using hthere key hkey
      · simp [hunknown.mpr hknown]
  | _ => simp [Fits, check, atPath_eq_nil_iff, kindFault_eq_nil_iff]

end Collate.Schema
