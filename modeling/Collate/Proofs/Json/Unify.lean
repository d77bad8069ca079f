import Collate.Proofs.Distinct
import Collate.Proofs.Json.Leaves
import Collate.Proofs.Number.Whole

/-!
What unifying the keys of a document does. Of an object it keeps each key once,
where it stood first, with the value that came last; a document in which no
object has a key twice stays as it is. Documents do not get deeper, and no number
is in the unified document that was not in the other one.
-/

namespace Collate

open Number (IsWord)

namespace Json

mutual

/-- How many containers of a document are inside one another. -/
def depth : Json → Nat
  | .array items => depthItems items + 1
  | .object fields => depthFields fields + 1
  | _ => 0

def depthItems : List Json → Nat
  | [] => 0
  | item :: rest => max item.depth (depthItems rest)

def depthFields : List (String × Json) → Nat
  | [] => 0
  | (_, value) :: rest => max value.depth (depthFields rest)

end

/-- No number of a document is a double. -/
def FloatFree (doc : Json) : Prop :=
  ∀ x, ¬ Within (.number (.real x)) doc

/-- 64 bits hold every whole number of a document. -/
def WordSized (doc : Json) : Prop :=
  ∀ n, Within (.number (.integer n)) doc → IsWord n

/-- A document that fits where so many containers may still be opened, and
whose whole numbers fit in 64 bits. -/
structure Sized (room : Nat) (doc : Json) : Prop where
  depth : doc.depth ≤ room
  words : doc.WordSized

variable {doc value : Json} {items : List Json} {fields gathered : List (String × Json)}
  {room : Nat}

/-! Parts of documents. -/

theorem depthItems_le_iff : depthItems items ≤ room ↔ ∀ item ∈ items, item.depth ≤ room := by
  induction items with
  | nil => simp [depthItems]
  | cons item rest ih => rw [depthItems, Nat.max_le, ih, List.forall_mem_cons]

theorem depthFields_le_iff :
    depthFields fields ≤ room ↔ ∀ field ∈ fields, field.2.depth ≤ room := by
  induction fields with
  | nil => simp [depthFields]
  | cons field rest ih => rw [depthFields, Nat.max_le, ih, List.forall_mem_cons]

theorem Sized.mono {more : Nat} (h : doc.Sized room) (hmore : room ≤ more) : doc.Sized more :=
  ⟨Nat.le_trans h.depth hmore, h.words⟩

theorem Sized.of_word {n : Int} (h : IsWord n) : Sized room (.number (.integer n)) := by
  refine ⟨by simp [Json.depth], ?_⟩
  intro m hm
  rw [within_scalar_iff rfl] at hm
  cases hm
  exact h

/-- A scalar that is no whole number fits anywhere. -/
theorem Sized.of_scalar (h : doc.isScalar = true) (hnumber : ∀ n, doc ≠ .number (.integer n)) :
    doc.Sized room := by
  refine ⟨?_, ?_⟩
  · cases doc <;> simp_all [isScalar, Json.depth]
  · intro n hn
    rw [within_scalar_iff h] at hn
    exact absurd hn.symm (hnumber n)

theorem sized_array_iff : Sized (room + 1) (.array items) ↔ ∀ item ∈ items, item.Sized room := by
  constructor
  · rintro ⟨hdepth, hwords⟩ item hitem
    rw [Json.depth, Nat.add_le_add_iff_right, depthItems_le_iff] at hdepth
    exact ⟨hdepth item hitem, fun n hn => hwords n (.item hitem hn)⟩
  · intro h
    refine ⟨?_, ?_⟩
    · rw [Json.depth, Nat.add_le_add_iff_right, depthItems_le_iff]
      exact fun item hitem => (h item hitem).depth
    · intro n hn
      rcases within_array_iff.mp hn with heq | ⟨item, hitem, hin⟩
      · cases heq
      · exact (h item hitem).words n hin

theorem sized_object_iff :
    Sized (room + 1) (.object fields) ↔ ∀ field ∈ fields, field.2.Sized room := by
  constructor
  · rintro ⟨hdepth, hwords⟩ field hfield
    rw [Json.depth, Nat.add_le_add_iff_right, depthFields_le_iff] at hdepth
    exact ⟨hdepth field hfield, fun n hn => hwords n (.field hfield hn)⟩
  · intro h
    refine ⟨?_, ?_⟩
    · rw [Json.depth, Nat.add_le_add_iff_right, depthFields_le_iff]
      exact fun field hfield => (h field hfield).depth
    · intro n hn
      rcases within_object_iff.mp hn with heq | ⟨field, hfield, hin⟩
      · cases heq
      · exact (h field hfield).words n hin

theorem FloatFree.item (h : FloatFree (.array items)) {item : Json} (hitem : item ∈ items) :
    item.FloatFree :=
  fun x hx => h x (.item hitem hx)

theorem FloatFree.field (h : FloatFree (.object fields)) {field : String × Json}
    (hfield : field ∈ fields) : field.2.FloatFree :=
  fun x hx => h x (.field hfield hx)

theorem FloatFree.of_items (h : ∀ item ∈ items, item.FloatFree) : FloatFree (.array items) := by
  intro x hx
  rcases within_array_iff.mp hx with heq | ⟨item, hitem, hin⟩
  · cases heq
  · exact h item hitem x hin

theorem FloatFree.of_fields (h : ∀ field ∈ fields, field.2.FloatFree) :
    FloatFree (.object fields) := by
  intro x hx
  rcases within_object_iff.mp hx with heq | ⟨field, hfield, hin⟩
  · cases heq
  · exact h field hfield x hin

theorem FloatFree.of_string (text : String) : FloatFree (.string text) := by
  intro x hx
  rw [within_scalar_iff rfl] at hx
  cases hx

/-! Unifying keeps the size. -/

mutual

theorem Sized.unify : ∀ (doc : Json) (room : Nat), doc.Sized room → doc.unify.Sized room
  | .array items, 0, h => absurd h.depth (by simp [Json.depth])
  | .object fields, 0, h => absurd h.depth (by simp [Json.depth])
  | .array items, room + 1, h =>
    sized_array_iff.mpr (sized_unifyItems items room (sized_array_iff.mp h))
  | .object fields, room + 1, h =>
    sized_object_iff.mpr (sized_unifyFields [] fields room nofun (sized_object_iff.mp h))
  | .null, _, h => h
  | .bool _, _, h => h
  | .number _, _, h => h
  | .string _, _, h => h

theorem sized_unifyItems : ∀ (items : List Json) (room : Nat), (∀ item ∈ items, item.Sized room) →
    ∀ item ∈ unifyItems items, item.Sized room
  | [], _, _ => nofun
  | first :: rest, room, h => by
    intro item hitem
    rw [unifyItems, List.mem_cons] at hitem
    rcases hitem with rfl | hrest
    · exact Sized.unify first room (h first List.mem_cons_self)
    · exact sized_unifyItems rest room (fun i hi => h i (List.mem_cons_of_mem _ hi)) item hrest

theorem sized_unifyFields : ∀ (gathered fields : List (String × Json)) (room : Nat),
    (∀ field ∈ gathered, field.2.Sized room) → (∀ field ∈ fields, field.2.Sized room) →
    ∀ field ∈ unifyFields gathered fields, field.2.Sized room
  | _, [], _, h, _ => h
  | gathered, (key, value) :: rest, room, h, hfields => by
    have hvalue := Sized.unify value room (hfields _ List.mem_cons_self)
    refine sized_unifyFields (put key value.unify gathered) rest room ?_
      fun field hfield => hfields field (List.mem_cons_of_mem _ hfield)
    intro field hfield
    rcases mem_put hfield with heq | hold
    · exact heq ▸ hvalue
    · exact h field hold

end

/-! Keys that are not repeated. -/

theorem put_new {key : String} (h : key ∉ gathered.map (·.1)) :
    put key value gathered = gathered ++ [(key, value)] := by
  induction gathered with
  | nil => rfl
  | cons field rest ih =>
    simp only [List.map_cons, List.mem_cons, not_or] at h
    rw [put, if_neg (Ne.symm h.1), ih h.2]
    rfl

mutual

/-- Where no key is repeated there is nothing to unify. -/
theorem DistinctKeys.unify : ∀ doc : Json, doc.DistinctKeys → doc.unify = doc
  | .array items, h => by
    rw [Json.unify, unifyItems_of_distinct items fun _ hitem => h.item hitem]
  | .object fields, h => by
    rw [Json.unify, unifyFields_of_distinct [] fields (by simpa using h.nodup)
      fun _ hfield => h.field hfield]
    rfl
  | .null, _ => rfl
  | .bool _, _ => rfl
  | .number _, _ => rfl
  | .string _, _ => rfl

theorem unifyItems_of_distinct : ∀ items : List Json, (∀ item ∈ items, item.DistinctKeys) →
    unifyItems items = items
  | [], _ => rfl
  | first :: rest, h => by
    rw [unifyItems, DistinctKeys.unify first (h first List.mem_cons_self),
      unifyItems_of_distinct rest fun item hitem => h item (List.mem_cons_of_mem _ hitem)]

theorem unifyFields_of_distinct : ∀ gathered fields : List (String × Json),
    ((gathered ++ fields).map (·.1)).Nodup → (∀ field ∈ fields, field.2.DistinctKeys) →
    unifyFields gathered fields = gathered ++ fields
  | gathered, [], _, _ => by rw [unifyFields, List.append_nil]
  | gathered, (key, value) :: rest, hnodup, h => by
    have hnew : key ∉ gathered.map (·.1) := by
      rw [List.map_append, List.nodup_append] at hnodup
      exact fun hmem => hnodup.2.2 key hmem key (by simp) rfl
    rw [unifyFields, DistinctKeys.unify value (h _ List.mem_cons_self), put_new hnew,
      unifyFields_of_distinct (gathered ++ [(key, value)]) rest (by simpa using hnodup)
        fun field hfield => h field (List.mem_cons_of_mem _ hfield)]
    simp

end

/-! Keys that are repeated. -/

@[simp] theorem field?_nil (key : String) : field? key [] = none := rfl

theorem field?_cons (key : String) (field : String × Json) :
    field? key (field :: fields) =
      (field? key fields).or (if field.1 = key then some field.2 else none) := by
  simp only [field?, List.reverse_cons, List.find?_append]
  by_cases h : field.1 = key
  · cases hrest : fields.reverse.find? (·.1 == key) <;> simp [h]
  · cases hrest : fields.reverse.find? (·.1 == key) <;> simp [h]

theorem field?_of_not_mem {key : String} (h : key ∉ fields.map (·.1)) :
    field? key fields = none := by
  induction fields with
  | nil => rfl
  | cons field rest ih =>
    simp only [List.map_cons, List.mem_cons, not_or] at h
    rw [field?_cons, ih h.2, if_neg (Ne.symm h.1)]
    rfl

theorem field?_put {key : String} (hnodup : (gathered.map (·.1)).Nodup) (other : String) :
    field? other (put key value gathered) =
      if key = other then some value else field? other gathered := by
  induction gathered with
  | nil => rw [put, field?_cons, field?_nil, Option.none_or]
  | cons field rest ih =>
    obtain ⟨k, v⟩ := field
    rw [List.map_cons, List.nodup_cons] at hnodup
    by_cases hk : k = key
    · subst hk
      rw [put, if_pos rfl, field?_cons, field?_cons]
      by_cases hother : k = other
      · subst hother
        simp [field?_of_not_mem hnodup.1]
      · simp [hother]
    · rw [put, if_neg hk, field?_cons, field?_cons, ih hnodup.2]
      by_cases hother : key = other
      · simp [hother]
      · simp [hother]

/-- Keys are gathered in the order in which they first come. -/
theorem unifyFields_keys (hnodup : (gathered.map (·.1)).Nodup) :
    (unifyFields gathered fields).map (·.1) =
      (gathered.map (·.1) ++ fields.map (·.1)).eraseDups := by
  induction fields generalizing gathered with
  | nil => rw [unifyFields, List.map_nil, List.append_nil, eraseDups_of_nodup hnodup]
  | cons field rest ih =>
    obtain ⟨key, value⟩ := field
    rw [unifyFields, ih (put_nodup hnodup), put_keys, List.map_cons, eraseDups_append_cons]

/-- Of the values of a key the last one counts. -/
theorem field?_unifyFields (hnodup : (gathered.map (·.1)).Nodup) (key : String) :
    field? key (unifyFields gathered fields) =
      ((field? key fields).map unify).or (field? key gathered) := by
  induction fields generalizing gathered with
  | nil => rfl
  | cons field rest ih =>
    obtain ⟨k, v⟩ := field
    rw [unifyFields, ih (put_nodup hnodup), field?_put hnodup, field?_cons]
    by_cases hk : k = key
    · cases field? key rest <;> simp [hk]
    · cases field? key rest <;> simp [hk]

/-- An object keeps each key once, where it stood first, with the value that came
last. -/
theorem unify_object (fields : List (String × Json)) : ∃ kept, unify (.object fields) =
    .object kept ∧ kept.map (·.1) = (fields.map (·.1)).eraseDups ∧
      ∀ key, field? key kept = (field? key fields).map unify := by
  refine ⟨unifyFields [] fields, rfl, unifyFields_keys List.nodup_nil, fun key => ?_⟩
  have hfield := @field?_unifyFields fields [] List.nodup_nil key
  rw [hfield, field?_nil, Option.or_none]

end Json

end Collate
