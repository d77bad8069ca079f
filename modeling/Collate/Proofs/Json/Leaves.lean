import Collate.Payload
import Mathlib.Data.List.Nodup

/-!
The leaves of an object and the keys that lead to them. A leaf is reached through
objects only and is anything but an object with fields. `leaves` lists them in
document order, each with its path, and `LeafAt` says what it means to be one. If
no object has a key twice, a path leads to one leaf at most; payloads are read
into such documents.
-/

namespace Collate

namespace Json

/-- A value is in a document: it is the document, or it is in an element or a field. -/
inductive Within : Json → Json → Prop
  | self (doc : Json) : Within doc doc
  | item {value item : Json} {items : List Json} :
      item ∈ items → Within value item → Within value (.array items)
  | field {value inner : Json} {key : String} {fields : List (String × Json)} :
      (key, inner) ∈ fields → Within value inner → Within value (.object fields)

def DistinctKeys (doc : Json) : Prop :=
  ∀ fields, Within (.object fields) doc → (fields.map (·.1)).Nodup

def KeysAvoid (c : Char) (doc : Json) : Prop :=
  ∀ fields, Within (.object fields) doc → ∀ field ∈ fields, c ∉ field.1.toList

/-- Anything but an object with fields. -/
def isLeaf : Json → Bool
  | .object (_ :: _) => false
  | _ => true

/-- A leaf of an object and the keys that lead to it. -/
inductive LeafAt : List (String × Json) → List String → Json → Prop
  | here {fields : List (String × Json)} {key : String} {value : Json} :
      (key, value) ∈ fields → value.isLeaf = true → LeafAt fields [key] value
  | inside {fields inner : List (String × Json)} {key : String} {path : List String}
      {value : Json} : (key, .object inner) ∈ fields → LeafAt inner path value →
      LeafAt fields (key :: path) value

mutual

/-- The leaves of the value under a key, with their paths from that key on. -/
def leavesUnder (key : String) : Json → List (List String × Json)
  | .object (field :: rest) => (leaves (field :: rest)).map fun leaf => (key :: leaf.1, leaf.2)
  | value => [([key], value)]

def leaves : List (String × Json) → List (List String × Json)
  | [] => []
  | (key, value) :: rest => leavesUnder key value ++ leaves rest

end

/-! Parts of documents. -/

variable {doc value : Json} {fields : List (String × Json)}

@[simp] theorem within_array_iff {items : List Json} :
    Within value (.array items) ↔ value = .array items ∨ ∃ item ∈ items, Within value item := by
  constructor
  · intro h
    cases h with
    | self => exact Or.inl rfl
    | item hitem hin => exact Or.inr ⟨_, hitem, hin⟩
  · rintro (rfl | ⟨item, hitem, hin⟩)
    · exact .self _
    · exact .item hitem hin

@[simp] theorem within_object_iff :
    Within value (.object fields) ↔
      value = .object fields ∨ ∃ field ∈ fields, Within value field.2 := by
  constructor
  · intro h
    cases h with
    | self => exact Or.inl rfl
    | field hfield hin => exact Or.inr ⟨_, hfield, hin⟩
  · rintro (rfl | ⟨⟨key, inner⟩, hfield, hin⟩)
    · exact .self _
    · exact .field hfield hin

@[simp] theorem within_scalar_iff (h : doc.isScalar = true) : Within value doc ↔ value = doc := by
  constructor
  · intro hin
    cases hin with
    | self => rfl
    | item => simp [isScalar] at h
    | field => simp [isScalar] at h
  · rintro rfl
    exact .self _

theorem DistinctKeys.nodup (h : DistinctKeys (.object fields)) : (fields.map (·.1)).Nodup :=
  h fields (.self _)

theorem DistinctKeys.field (h : DistinctKeys (.object fields)) {key : String} {inner : Json}
    (hfield : (key, inner) ∈ fields) : inner.DistinctKeys :=
  fun other hother => h other (.field hfield hother)

theorem DistinctKeys.item {items : List Json} (h : DistinctKeys (.array items)) {item : Json}
    (hitem : item ∈ items) : item.DistinctKeys :=
  fun other hother => h other (.item hitem hother)

theorem KeysAvoid.item {c : Char} {items : List Json} (h : KeysAvoid c (.array items))
    {item : Json} (hitem : item ∈ items) : item.KeysAvoid c :=
  fun other hother => h other (.item hitem hother)

theorem DistinctKeys.of_items {items : List Json} (h : ∀ item ∈ items, item.DistinctKeys) :
    DistinctKeys (.array items) := by
  intro fields hin
  rcases within_array_iff.mp hin with heq | ⟨item, hitem, hin⟩
  · cases heq
  · exact h item hitem fields hin

theorem DistinctKeys.of_fields (hnodup : (fields.map (·.1)).Nodup)
    (h : ∀ field ∈ fields, field.2.DistinctKeys) : DistinctKeys (.object fields) := by
  intro other hin
  rcases within_object_iff.mp hin with heq | ⟨field, hfield, hin⟩
  · cases heq
    exact hnodup
  · exact h field hfield other hin

theorem DistinctKeys.of_scalar (h : doc.isScalar = true) : doc.DistinctKeys := by
  intro fields hin
  rw [within_scalar_iff h] at hin
  subst hin
  simp [isScalar] at h

/-! Leaves and their paths. -/

theorem LeafAt.ne_nil {path : List String} (h : LeafAt fields path value) : path ≠ [] := by
  cases h with
  | here => exact List.cons_ne_nil _ _
  | inside => exact List.cons_ne_nil _ _

/-- Keys on the way to a leaf are keys of the document. -/
theorem LeafAt.avoids {c : Char} {path : List String} (h : LeafAt fields path value)
    (havoid : KeysAvoid c (.object fields)) : ∀ key ∈ path, c ∉ key.toList := by
  induction h with
  | here hfield _ =>
    intro key hkey
    rw [List.mem_singleton.mp hkey]
    exact havoid _ (.self _) _ hfield
  | inside hfield _ ih =>
    intro key hkey
    rcases List.mem_cons.mp hkey with rfl | hrest
    · exact havoid _ (.self _) _ hfield
    · exact ih (fun other hother => havoid other (.field hfield hother)) key hrest

theorem leafAt_cons {field : String × Json} {path : List String} :
    LeafAt (field :: fields) path value ↔ LeafAt [field] path value ∨ LeafAt fields path value := by
  constructor
  · intro h
    cases h with
    | here hfield hleaf =>
      rcases List.mem_cons.mp hfield with heq | hrest
      · exact Or.inl (.here (List.mem_singleton.mpr heq) hleaf)
      · exact Or.inr (.here hrest hleaf)
    | inside hfield hinner =>
      rcases List.mem_cons.mp hfield with heq | hrest
      · exact Or.inl (.inside (List.mem_singleton.mpr heq) hinner)
      · exact Or.inr (.inside hrest hinner)
  · rintro (h | h)
    · cases h with
      | here hfield hleaf => exact .here (by simp [List.mem_singleton.mp hfield]) hleaf
      | inside hfield hinner => exact .inside (by simp [List.mem_singleton.mp hfield]) hinner
    · cases h with
      | here hfield hleaf => exact .here (List.mem_cons_of_mem _ hfield) hleaf
      | inside hfield hinner => exact .inside (List.mem_cons_of_mem _ hfield) hinner

/-- Under a key stands a leaf, or an object whose leaves are meant. -/
theorem leafAt_singleton {key : String} {inner : Json} {path : List String} :
    LeafAt [(key, inner)] path value ↔ (inner.isLeaf = true ∧ path = [key] ∧ value = inner) ∨
      ∃ more rest, inner = .object more ∧ path = key :: rest ∧ LeafAt more rest value := by
  constructor
  · intro h
    cases h with
    | here hfield hleaf =>
      cases List.mem_singleton.mp hfield
      exact Or.inl ⟨hleaf, rfl, rfl⟩
    | inside hfield hinner =>
      cases List.mem_singleton.mp hfield
      exact Or.inr ⟨_, _, rfl, rfl, hinner⟩
  · rintro (⟨hleaf, rfl, rfl⟩ | ⟨more, rest, rfl, rfl, hinner⟩)
    · exact .here (List.mem_singleton.mpr rfl) hleaf
    · exact .inside (List.mem_singleton.mpr rfl) hinner

theorem leavesUnder_of_isLeaf {key : String} (h : value.isLeaf = true) :
    leavesUnder key value = [([key], value)] := by
  unfold leavesUnder
  split
  · simp [isLeaf] at h
  · rfl

mutual

theorem mem_leavesUnder (key : String) (path : List String) (value : Json) : ∀ inner : Json,
    (path, value) ∈ leavesUnder key inner ↔ LeafAt [(key, inner)] path value
  | .object (field :: rest) => by
    have hinner := fun path => mem_leaves path value (field :: rest)
    simp only [leavesUnder, List.mem_map, leafAt_singleton, isLeaf, Prod.mk.injEq]
    constructor
    · rintro ⟨⟨p, v⟩, hmem, rfl, rfl⟩
      exact Or.inr ⟨_, p, rfl, rfl, (hinner p).mp hmem⟩
    · rintro (⟨hfalse, -, -⟩ | ⟨more, p, hmore, rfl, hleaf⟩)
      · cases hfalse
      · cases hmore
        exact ⟨(p, value), (hinner p).mpr hleaf, rfl, rfl⟩
  | .object [] => by
    rw [leavesUnder_of_isLeaf rfl, List.mem_singleton, leafAt_singleton, Prod.mk.injEq]
    constructor
    · exact fun h => Or.inl ⟨rfl, h⟩
    · rintro (⟨-, h⟩ | ⟨more, rest, hmore, -, hleaf⟩)
      · exact h
      · cases hmore
        cases hleaf with
        | here hfield => cases hfield
        | inside hfield => cases hfield
  | .null => by simp [leavesUnder, leafAt_singleton, isLeaf]
  | .bool _ => by simp [leavesUnder, leafAt_singleton, isLeaf]
  | .number _ => by simp [leavesUnder, leafAt_singleton, isLeaf]
  | .string _ => by simp [leavesUnder, leafAt_singleton, isLeaf]
  | .array _ => by simp [leavesUnder, leafAt_singleton, isLeaf]

theorem mem_leaves (path : List String) (value : Json) : ∀ fields : List (String × Json),
    (path, value) ∈ leaves fields ↔ LeafAt fields path value
  | [] => by
    simp only [leaves, List.not_mem_nil, false_iff]
    intro h
    cases h with
    | here hfield => cases hfield
    | inside hfield => cases hfield
  | (key, inner) :: rest => by
    rw [leaves, List.mem_append, leafAt_cons, mem_leavesUnder key path value inner,
      mem_leaves path value rest]

end

/-- Every path under a key begins with it. -/
theorem head_of_mem_leavesUnder {key : String} {inner : Json} {leaf : List String × Json}
    (h : leaf ∈ leavesUnder key inner) : leaf.1.head? = some key := by
  rcases leafAt_singleton.mp ((mem_leavesUnder key leaf.1 leaf.2 inner).mp h) with
    ⟨-, hpath, -⟩ | ⟨more, rest, -, hpath, -⟩
  · simp [hpath]
  · simp [hpath]

theorem LeafAt.head_mem {path : List String} (h : LeafAt fields path value) :
    ∃ key ∈ fields.map (·.1), path.head? = some key := by
  cases h with
  | here hfield _ => exact ⟨_, List.mem_map_of_mem hfield, rfl⟩
  | inside hfield _ => exact ⟨_, List.mem_map_of_mem hfield, rfl⟩

mutual

theorem leavesUnder_nodup (key : String) : ∀ inner : Json, inner.DistinctKeys →
    ((leavesUnder key inner).map (·.1)).Nodup
  | .object (field :: rest), h => by
    have hinner := leaves_nodup (field :: rest) h
    simp only [leavesUnder, List.map_map]
    have hpaths : ((·.1) ∘ fun leaf : List String × Json => (key :: leaf.1, leaf.2)) =
        (key :: ·) ∘ (·.1) := rfl
    rw [hpaths, ← List.map_map]
    exact hinner.map (List.cons_injective)
  | .object [], _ => by simp [leavesUnder]
  | .null, _ => by simp [leavesUnder]
  | .bool _, _ => by simp [leavesUnder]
  | .number _, _ => by simp [leavesUnder]
  | .string _, _ => by simp [leavesUnder]
  | .array _, _ => by simp [leavesUnder]

/-- No two leaves have the same path. -/
theorem leaves_nodup : ∀ fields : List (String × Json), DistinctKeys (.object fields) →
    ((leaves fields).map (·.1)).Nodup
  | [], _ => by simp [leaves]
  | (key, inner) :: rest, h => by
    have hkeys := h.nodup
    simp only [List.map_cons, List.nodup_cons] at hkeys
    have hhead := leavesUnder_nodup key inner (h.field (List.mem_cons_self))
    have hrest := leaves_nodup rest (.of_fields hkeys.2 fun field hfield =>
      h.field (List.mem_cons_of_mem _ hfield))
    rw [leaves, List.map_append, List.nodup_append]
    refine ⟨hhead, hrest, ?_⟩
    -- the first key differs
    rintro path hpath other hother rfl
    obtain ⟨leaf, hleaf, rfl⟩ := List.mem_map.mp hpath
    obtain ⟨⟨p, v⟩, hmem, hp⟩ := List.mem_map.mp hother
    obtain ⟨k, hk, hhead'⟩ := ((mem_leaves p v rest).mp hmem).head_mem
    rw [show p = leaf.1 from hp, head_of_mem_leavesUnder hleaf, Option.some.injEq] at hhead'
    exact hkeys.1 (hhead' ▸ hk)

end

/-- A path leads to one leaf at most. -/
theorem LeafAt.unique {path : List String} {other : Json} (h : LeafAt fields path value)
    (h' : LeafAt fields path other) (hdistinct : DistinctKeys (.object fields)) :
    value = other := by
  have hmem := (mem_leaves path value fields).mpr h
  have hmem' := (mem_leaves path other fields).mpr h'
  have heq := List.inj_on_of_nodup_map (leaves_nodup fields hdistinct) hmem hmem' rfl
  exact congrArg Prod.snd heq

/-! Documents read from payloads. -/

theorem put_keys (key : String) (value : Json) (fields : List (String × Json)) :
    (put key value fields).map (·.1) =
      if key ∈ fields.map (·.1) then fields.map (·.1) else fields.map (·.1) ++ [key] := by
  induction fields with
  | nil => rfl
  | cons field rest ih =>
    obtain ⟨k, v⟩ := field
    by_cases hk : k = key
    · simp [put, hk]
    · by_cases hmem : key ∈ rest.map (·.1)
      · rw [if_pos hmem] at ih
        simp [put, hk, ih, hmem]
      · rw [if_neg hmem] at ih
        simp [put, hk, ih, hmem, Ne.symm hk]

theorem put_nodup {key : String} (h : (fields.map (·.1)).Nodup) :
    ((put key value fields).map (·.1)).Nodup := by
  rw [put_keys]
  split
  · exact h
  · rename_i hnew
    refine List.nodup_append.mpr ⟨h, List.nodup_singleton key, ?_⟩
    rintro k hk other hother rfl
    exact hnew (List.mem_singleton.mp hother ▸ hk)

theorem mem_put {key : String} {field : String × Json}
    (h : field ∈ put key value fields) : field.2 = value ∨ field ∈ fields := by
  induction fields with
  | nil =>
    rw [put, List.mem_singleton] at h
    exact Or.inl (by rw [h])
  | cons first rest ih =>
    obtain ⟨k, v⟩ := first
    by_cases hk : k = key
    · rw [put, if_pos hk] at h
      rcases List.mem_cons.mp h with rfl | hrest
      · exact Or.inl rfl
      · exact Or.inr (List.mem_cons_of_mem _ hrest)
    · rw [put, if_neg hk] at h
      rcases List.mem_cons.mp h with rfl | hrest
      · exact Or.inr List.mem_cons_self
      · exact (ih hrest).imp id (List.mem_cons_of_mem _)

theorem DistinctKeys.put {key : String} (h : DistinctKeys (.object fields))
    (hvalue : value.DistinctKeys) : DistinctKeys (.object (put key value fields)) := by
  refine .of_fields (put_nodup h.nodup) ?_
  intro field hfield
  rcases mem_put hfield with heq | hold
  · exact heq ▸ hvalue
  · exact h.field hold

mutual

theorem unify_distinctKeys : ∀ doc : Json, doc.unify.DistinctKeys
  | .array items => .of_items (unifyItems_distinctKeys items)
  | .object fields => unifyFields_distinctKeys [] fields (.of_fields List.nodup_nil nofun)
  | .null => .of_scalar rfl
  | .bool _ => .of_scalar rfl
  | .number _ => .of_scalar rfl
  | .string _ => .of_scalar rfl

theorem unifyItems_distinctKeys : ∀ items : List Json, ∀ item ∈ unifyItems items, item.DistinctKeys
  | [], _, h => by cases h
  | first :: rest, item, h => by
    rw [unifyItems, List.mem_cons] at h
    rcases h with rfl | hrest
    · exact unify_distinctKeys first
    · exact unifyItems_distinctKeys rest item hrest

theorem unifyFields_distinctKeys : ∀ gathered fields : List (String × Json),
    DistinctKeys (.object gathered) → DistinctKeys (.object (unifyFields gathered fields))
  | _, [], h => h
  | gathered, (key, value) :: rest, h =>
    unifyFields_distinctKeys (Json.put key value.unify gathered) rest
      (h.put (unify_distinctKeys value))

end

end Json

/-- No object of a payload has a key twice. -/
theorem readPayload_distinctKeys {payload : String} {doc : Json}
    (h : readPayload payload = .ok doc) : doc.DistinctKeys := by
  unfold readPayload at h
  split at h
  · cases h
    exact .of_scalar rfl
  · split at h
    · cases h
      exact Json.unify_distinctKeys _
    · cases h

end Collate
