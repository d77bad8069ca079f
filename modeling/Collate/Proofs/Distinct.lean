import Mathlib.Data.List.Induction
import Mathlib.Data.List.Nodup

/-!
Texts without repeats. Of a list with repeats each text is kept once, where it
stood first; so headers and keys keep the order in which they came.
-/

namespace Collate

theorem eraseDups_of_nodup {l : List String} (h : l.Nodup) : l.eraseDups = l := by
  induction l with
  | nil => rfl
  | cons a rest ih =>
    rw [List.nodup_cons] at h
    have hfilter : (rest.filter fun b => !b == a) = rest := by
      rw [List.filter_eq_self]
      intro b hb
      have hne : b ≠ a := fun heq => h.1 (heq ▸ hb)
      simp [hne]
    rw [List.eraseDups_cons, hfilter, ih h.2]

/-- One more text is kept if it is new. -/
theorem eraseDups_concat (l : List String) (a : String) :
    (l ++ [a]).eraseDups = if a ∈ l then l.eraseDups else l.eraseDups ++ [a] := by
  rw [List.eraseDups_append]
  split
  · rename_i hmem
    simp [List.removeAll, hmem]
  · rename_i hmem
    have hnew : [a].removeAll l = [a] := by simp [List.removeAll, hmem]
    rw [hnew, eraseDups_of_nodup (List.nodup_singleton a)]

/-- Nothing is kept twice. -/
theorem nodup_eraseDups (l : List String) : l.eraseDups.Nodup := by
  induction l using List.reverseRecOn with
  | nil => exact List.nodup_nil
  | append_singleton l a ih =>
    rw [eraseDups_concat]
    split
    · exact ih
    · rename_i hmem
      rw [List.nodup_append_comm]
      exact List.nodup_cons.mpr ⟨fun hkept => hmem (List.mem_eraseDups.mp hkept), ih⟩

/-- Repeats may be dropped from what comes first. -/
theorem eraseDups_append_eraseDups (l rest : List String) :
    (l.eraseDups ++ rest).eraseDups = (l ++ rest).eraseDups := by
  have hsame : rest.removeAll l.eraseDups = rest.removeAll l := by
    apply List.filter_congr
    intro a _
    simp
  rw [List.eraseDups_append, List.eraseDups_append, hsame, eraseDups_of_nodup (nodup_eraseDups l)]

/-- A text that was there before makes no difference. -/
theorem eraseDups_append_cons (l rest : List String) (a : String) :
    (l ++ a :: rest).eraseDups = ((if a ∈ l then l else l ++ [a]) ++ rest).eraseDups := by
  by_cases hmem : a ∈ l
  · rw [if_pos hmem, List.eraseDups_append, List.eraseDups_append]
    simp [List.removeAll, hmem]
  · rw [if_neg hmem, List.append_assoc, List.singleton_append]

/-- Texts that were all there before make no difference. -/
theorem eraseDups_append_of_subset {l rest : List String} (h : ∀ a ∈ rest, a ∈ l) :
    (l ++ rest).eraseDups = l.eraseDups := by
  have hnone : rest.removeAll l = [] := by
    simpa [List.removeAll, List.filter_eq_nil_iff] using h
  rw [List.eraseDups_append, hnone, List.eraseDups_nil, List.append_nil]

/-- Repeats may be dropped from what follows. -/
theorem eraseDups_append_eraseDups_right (l rest : List String) :
    (l ++ rest.eraseDups).eraseDups = (l ++ rest).eraseDups := by
  induction rest using List.reverseRecOn with
  | nil => rfl
  | append_singleton rest a ih =>
    rw [eraseDups_concat]
    split
    · rename_i hmem
      rw [ih, ← List.append_assoc]
      apply (eraseDups_append_of_subset _).symm
      simp [hmem]
    · rw [← List.append_assoc, ← eraseDups_append_eraseDups, ih, eraseDups_append_eraseDups,
        List.append_assoc]

/-- Repeats may be dropped from each of several lists first. -/
theorem eraseDups_flatMap_eraseDups {α : Type} (l : List α) (f : α → List String) :
    (l.flatMap fun a => (f a).eraseDups).eraseDups = (l.flatMap f).eraseDups := by
  induction l with
  | nil => rfl
  | cons a rest ih =>
    rw [List.flatMap_cons, List.flatMap_cons, eraseDups_append_eraseDups,
      ← eraseDups_append_eraseDups_right, ih, eraseDups_append_eraseDups_right]

/-- The order in which texts come decides only their order. -/
theorem perm_eraseDups {l others : List String} (h : l.Perm others) :
    l.eraseDups.Perm others.eraseDups := by
  apply (List.perm_ext_iff_of_nodup (nodup_eraseDups l) (nodup_eraseDups others)).mpr
  intro a
  rw [List.mem_eraseDups, List.mem_eraseDups, h.mem_iff]

/-- What has no repeats stays in front, and what is new follows. -/
theorem eraseDups_append_of_nodup {l : List String} (h : l.Nodup) (rest : List String) :
    (l ++ rest).eraseDups = l ++ (rest.filter fun a => a ∉ l).eraseDups := by
  rw [List.eraseDups_append, eraseDups_of_nodup h]
  simp [List.removeAll]

end Collate
