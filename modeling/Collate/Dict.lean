/-!
Finite maps with text keys, kept in key order. Because the order is part of the
type, two maps with the same look-ups are the same map, so rows, alias tables
and sheet lists can be compared with plain equality.
-/

namespace Collate

def KeysIncrease {α : Type} (entries : List (String × α)) : Prop :=
  entries.Pairwise fun a b => a.1 < b.1

/-- A finite map with text keys. -/
structure Dict (α : Type) where
  entries : List (String × α)
  increasing : KeysIncrease entries

namespace Dict

variable {α β : Type}

@[ext] theorem ext {a b : Dict α} (h : a.entries = b.entries) : a = b := by
  cases a; cases b; cases h; rfl

instance [DecidableEq α] : DecidableEq (Dict α) := fun a b =>
  if h : a.entries = b.entries then isTrue (Dict.ext h)
  else isFalse fun e => h (e ▸ rfl)

instance [Repr α] : Repr (Dict α) where
  reprPrec d n := reprPrec d.entries n

def empty : Dict α := ⟨[], List.Pairwise.nil⟩

instance : Inhabited (Dict α) := ⟨empty⟩

def find (key : String) : List (String × α) → Option α
  | [] => none
  | (k, v) :: rest => if k = key then some v else find key rest

/-- Entries with a value put in its place by key, replacing an earlier value. -/
def place (key : String) (value : α) : List (String × α) → List (String × α)
  | [] => [(key, value)]
  | (k, v) :: rest =>
    if key < k then (key, value) :: (k, v) :: rest
    else if key = k then (key, value) :: rest
    else (k, v) :: place key value rest

/-- Only the placed key is new. -/
theorem mem_place {key : String} {value : α} {entry : String × α}
    {entries : List (String × α)} (h : entry ∈ place key value entries) :
    entry = (key, value) ∨ entry ∈ entries := by
  induction entries with
  | nil => simpa [place] using h
  | cons head rest ih =>
    obtain ⟨k, v⟩ := head
    simp only [place] at h
    split at h
    · simpa using h
    · split at h
      · grind
      · grind

theorem place_increasing (key : String) (value : α) {entries : List (String × α)}
    (h : KeysIncrease entries) : KeysIncrease (place key value entries) := by
  induction entries with
  | nil => exact List.pairwise_singleton _ _
  | cons head rest ih =>
    obtain ⟨k, v⟩ := head
    have hrest : ∀ entry ∈ rest, k < entry.1 := fun _ he => List.rel_of_pairwise_cons h he
    have htail : KeysIncrease rest := List.Pairwise.of_cons h
    simp only [place]
    split
    · rename_i hlt
      refine List.Pairwise.cons ?_ h
      intro entry hentry
      rcases List.mem_cons.mp hentry with rfl | hentry
      · exact hlt
      · exact String.lt_trans hlt (hrest _ hentry)
    · split
      · rename_i heq
        subst heq
        exact List.Pairwise.cons (hrest) htail
      · rename_i hlt hne
        refine List.Pairwise.cons ?_ (ih htail)
        intro entry hentry
        rcases mem_place hentry with rfl | hentry
        · rcases String.le_total k key with hle | hle
          · exact String.not_le.mp fun hge => hne (String.le_antisymm hge hle)
          · exact absurd (String.le_antisymm hle (String.not_lt.mp hlt)) hne
        · exact hrest _ hentry

def insert (key : String) (value : α) (d : Dict α) : Dict α :=
  ⟨place key value d.entries, place_increasing key value d.increasing⟩

def get? (d : Dict α) (key : String) : Option α :=
  find key d.entries

def contains (d : Dict α) (key : String) : Bool :=
  (d.get? key).isSome

/-- Puts values one after the other, a later one replacing an earlier one under
the same key. -/
def insertAll (d : Dict α) (entries : List (String × α)) : Dict α :=
  entries.foldl (fun d (key, value) => d.insert key value) d

/-- The map of a list of entries; under a repeated key the last value stands. -/
def ofList (entries : List (String × α)) : Dict α :=
  empty.insertAll entries

def keys (d : Dict α) : List String :=
  d.entries.map (·.1)

theorem find_place (key other : String) (value : α) (entries : List (String × α)) :
    find other (place key value entries) =
      if key = other then some value else find other entries := by
  induction entries with
  | nil => simp [place, find]
  | cons head rest ih =>
    obtain ⟨k, v⟩ := head
    simp only [place]
    split
    · simp only [find]
    · split
      · rename_i heq
        subst heq
        simp only [find]
        split <;> rfl
      · rename_i hne
        simp only [find, ih]
        by_cases hk : k = other
        · subst hk
          simp [hne]
        · simp [hk]

@[simp] theorem get?_empty (key : String) : (empty : Dict α).get? key = none := rfl

/-- After an insertion the key has the value and all other keys are as before. -/
theorem get?_insert (d : Dict α) (key other : String) (value : α) :
    (d.insert key value).get? other = if key = other then some value else d.get? other :=
  find_place key other value d.entries

end Dict

end Collate
