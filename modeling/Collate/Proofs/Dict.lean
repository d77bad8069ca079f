import Collate.Dict
import Mathlib.Algebra.GroupWithZero.Nat

/-!
Look-ups of finite maps. Two maps with the same look-ups are equal, because the
entries of both are kept in key order; look-ups after many insertions follow
from `get?_insert`.
-/

namespace Collate.Dict

variable {α : Type}

theorem find_eq_none_iff {key : String} {entries : List (String × α)} :
    find key entries = none ↔ ∀ entry ∈ entries, entry.1 ≠ key := by
  induction entries with
  | nil => simp [find]
  | cons head rest ih =>
    obtain ⟨k, v⟩ := head
    by_cases hk : k = key
    · simp [find, hk]
    · simp [find, hk, ih]

/-- Under distinct keys an entry is found under its key. -/
theorem find_of_mem {key : String} {value : α} {entries : List (String × α)}
    (hnodup : (entries.map (·.1)).Nodup) (h : (key, value) ∈ entries) :
    find key entries = some value := by
  induction entries with
  | nil => cases h
  | cons head rest ih =>
    obtain ⟨k, v⟩ := head
    simp only [List.map_cons, List.nodup_cons] at hnodup
    rcases List.mem_cons.mp h with heq | hrest
    · cases heq
      simp [find]
    · have hne : k ≠ key := fun heq => hnodup.1 (heq ▸ List.mem_map_of_mem hrest)
      rw [find, if_neg hne, ih hnodup.2 hrest]

/-- Below the first key there is nothing. -/
private theorem find_of_lt_head {key k : String} {v : α} {rest : List (String × α)}
    (h : KeysIncrease ((k, v) :: rest)) (hlt : key < k) : find key ((k, v) :: rest) = none := by
  apply find_eq_none_iff.mpr
  intro entry hentry heq
  rcases List.mem_cons.mp hentry with rfl | hentry
  · exact String.lt_irrefl _ (heq ▸ hlt)
  · have hk : k < entry.1 := List.rel_of_pairwise_cons h hentry
    exact String.lt_irrefl _ (heq ▸ String.lt_trans hlt hk)

/-- Behind the first entry its key does not occur again. -/
private theorem find_rest {k : String} {v : α} {rest : List (String × α)}
    (h : KeysIncrease ((k, v) :: rest)) : find k rest = none := by
  apply find_eq_none_iff.mpr
  intro entry hentry heq
  have hk : k < entry.1 := List.rel_of_pairwise_cons h hentry
  exact String.lt_irrefl _ (heq ▸ hk)

theorem entries_eq_of_find_eq {a b : List (String × α)} (ha : KeysIncrease a)
    (hb : KeysIncrease b) (h : ∀ key, find key a = find key b) : a = b := by
  induction a generalizing b with
  | nil =>
    cases b with
    | nil => rfl
    | cons head rest =>
      have hhead := h head.1
      simp [find] at hhead
  | cons head rest ih =>
    obtain ⟨k, v⟩ := head
    cases b with
    | nil =>
      have hhead := h k
      simp [find] at hhead
    | cons other more =>
      obtain ⟨l, w⟩ := other
      -- the smaller of two different first keys is found on one side only
      have hkl : k = l := by
        rcases String.le_total k l with hle | hle
        · refine String.le_antisymm hle (String.not_lt.mp fun hlt => ?_)
          have hnone := (h k).trans (find_of_lt_head hb hlt)
          simp [find] at hnone
        · refine String.le_antisymm (String.not_lt.mp fun hlt => ?_) hle
          have hnone := (h l).symm.trans (find_of_lt_head ha hlt)
          simp [find] at hnone
      subst hkl
      have hvw : v = w := by
        have hhead := h k
        simpa [find] using hhead
      subst hvw
      have hrest : ∀ key, find key rest = find key more := by
        intro key
        by_cases hkey : k = key
        · subst hkey
          rw [find_rest ha, find_rest hb]
        · have htail := h key
          simpa [find, hkey] using htail
      rw [ih (List.Pairwise.of_cons ha) (List.Pairwise.of_cons hb) hrest]

/-- Two maps with the same look-ups are the same map. -/
theorem ext_get? {a b : Dict α} (h : ∀ key, a.get? key = b.get? key) : a = b :=
  Dict.ext (entries_eq_of_find_eq a.increasing b.increasing h)

theorem contains_insert (d : Dict α) (key other : String) (value : α) :
    (d.insert key value).contains other = (decide (key = other) || d.contains other) := by
  unfold contains
  rw [get?_insert]
  by_cases h : key = other
  · simp [h]
  · simp [h]

theorem get?_isSome (d : Dict α) (key : String) : (d.get? key).isSome = d.contains key := rfl

/-- After insertions under distinct keys an inserted entry is found, and all
else is as before. -/
theorem get?_insertAll {entries : List (String × α)} (d : Dict α)
    (h : (entries.map (·.1)).Nodup) (key : String) :
    (d.insertAll entries).get? key = (find key entries).or (d.get? key) := by
  induction entries generalizing d with
  | nil => rfl
  | cons head rest ih =>
    obtain ⟨k, v⟩ := head
    simp only [List.map_cons, List.nodup_cons] at h
    have hstep : (d.insertAll ((k, v) :: rest)) = (d.insert k v).insertAll rest := rfl
    rw [hstep, ih (d.insert k v) h.2, get?_insert]
    by_cases hk : k = key
    · subst hk
      have hnone : find k rest = none := by
        apply find_eq_none_iff.mpr
        intro entry hentry heq
        exact h.1 (List.mem_map.mpr ⟨entry, hentry, heq⟩)
      simp [find, hnone]
    · simp [find, hk]

theorem get?_ofList {entries : List (String × α)} (h : (entries.map (·.1)).Nodup)
    (key : String) : (ofList entries).get? key = find key entries := by
  unfold ofList
  rw [get?_insertAll empty h]
  simp

/-- After insertions the last entry under a key is found, and all else is as
before. -/
theorem get?_insertAll_eq_lookup (entries : List (String × α)) (d : Dict α) (key : String) :
    (d.insertAll entries).get? key = (entries.reverse.lookup key).or (d.get? key) := by
  induction entries generalizing d with
  | nil => rfl
  | cons head rest ih =>
    obtain ⟨k, v⟩ := head
    have hstep : d.insertAll ((k, v) :: rest) = (d.insert k v).insertAll rest := rfl
    rw [hstep, ih, get?_insert, List.reverse_cons, List.lookup_append, Option.or_assoc]
    congr 1
    by_cases hk : k = key
    · simp [hk]
    · simp [hk, List.lookup_cons, beq_eq_false_iff_ne.mpr (Ne.symm hk)]

theorem get?_ofList_eq_lookup (entries : List (String × α)) (key : String) :
    (ofList entries).get? key = entries.reverse.lookup key := by
  rw [ofList, get?_insertAll_eq_lookup, get?_empty, Option.or_none]

theorem lookup_map_pair (keys : List String) (f : String → α) (key : String) :
    (keys.map fun k => (k, f k)).lookup key = if key ∈ keys then some (f key) else none := by
  induction keys with
  | nil => simp
  | cons first rest ih =>
    rw [List.map_cons, List.lookup_cons, ih]
    by_cases heq : key = first
    · simp [heq]
    · simp [heq, beq_eq_false_iff_ne.mpr heq]

/-- The map of values given by key. -/
theorem get?_ofList_map (keys : List String) (f : String → α) (key : String) :
    (ofList (keys.map fun k => (k, f k))).get? key =
      if key ∈ keys then some (f key) else none := by
  rw [get?_ofList_eq_lookup, ← List.map_reverse, lookup_map_pair]
  simp only [List.mem_reverse]

theorem keys_nodup (d : Dict α) : (d.entries.map (·.1)).Nodup := by
  rw [List.Nodup, List.pairwise_map]
  refine List.Pairwise.imp ?_ d.increasing
  intro a b hlt heq
  exact String.lt_irrefl _ (heq ▸ hlt)

theorem mem_insertAll {entries : List (String × α)} {d : Dict α} {e : String × α}
    (h : e ∈ (d.insertAll entries).entries) : e ∈ entries ∨ e ∈ d.entries := by
  induction entries generalizing d with
  | nil => exact .inr h
  | cons first rest ih =>
    rcases ih (d := d.insert first.1 first.2) h with hrest | hinsert
    · exact .inl (.tail _ hrest)
    · rcases mem_place hinsert with rfl | hold
      · exact .inl (.head _)
      · exact .inr hold

/-- Only what was put into a map is in it. -/
theorem mem_ofList {entries : List (String × α)} {e : String × α}
    (h : e ∈ (ofList entries).entries) : e ∈ entries :=
  (mem_insertAll h).resolve_right List.not_mem_nil

/-! Counts. -/

def total (counts : Dict Nat) : Nat := (counts.entries.map (·.2)).sum

private theorem sum_place (key : String) (count : Nat) {entries : List (String × Nat)}
    (h : KeysIncrease entries) :
    ((place key count entries).map (·.2)).sum + (find key entries).getD 0 =
      (entries.map (·.2)).sum + count := by
  induction entries with
  | nil => simp [place, find]
  | cons head rest ih =>
    obtain ⟨k, n⟩ := head
    have hrest := ih (List.Pairwise.of_cons h)
    rw [place]
    split
    · rename_i hlt
      simp only [find_of_lt_head h hlt, List.map_cons, List.sum_cons, Option.getD_none]
      omega
    · split
      · rename_i heq
        simp only [find, heq, if_true, List.map_cons, List.sum_cons, Option.getD_some]
        omega
      · rename_i hne
        simp only [find, Ne.symm hne, if_false, List.map_cons, List.sum_cons]
        omega

/-- A count that is put in takes the place of the one that was there. -/
theorem total_insert (counts : Dict Nat) (key : String) (count : Nat) :
    (counts.insert key count).total + (counts.get? key).getD 0 = counts.total + count :=
  sum_place key count counts.increasing

/-- A map is built again from its own entries. -/
@[simp] theorem ofList_entries (d : Dict α) : ofList d.entries = d :=
  ext_get? fun key => get?_ofList d.keys_nodup key

end Collate.Dict
