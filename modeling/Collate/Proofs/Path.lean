import Collate.Path
import Mathlib.Data.List.Basic

/-!
Where a path leads. Its components are what stands between its slashes; those that are
empty or a single point lead nowhere. Followed one by one from the top they lead to a
place, and a path that never goes up leads to its steps below the place it starts from.
-/

namespace Collate.Path

def components (path : String) : List String :=
  (path.toList.splitOn '/').map String.ofList

/-- The place that the parts of a path lead to from another one, whatever is there. -/
def follow (place : List String) : List (List Char) → List String
  | [] => place
  | part :: rest =>
    if isStep part then
      if part = up.toList then follow place.dropLast rest
      else follow (place ++ [String.ofList part]) rest
    else follow place rest

def place (path : String) : List String := follow [] (parts path.toList)

/-! The parts of a path. -/

theorem parts_eq_splitOn (path : List Char) : parts path = path.splitOn '/' := by
  induction path with
  | nil => rfl
  | cons c rest ih =>
    rw [parts, ih, List.splitOn, List.splitOn, List.splitOnP_cons_eq_if_modifyHead]
    by_cases hslash : c = '/'
    · rw [if_pos hslash, if_pos (beq_iff_eq.mpr hslash)]
    · rw [if_neg hslash, if_neg (by simpa using hslash)]
      cases hrest : rest.splitOnP (· == '/') with
      | nil => exact absurd hrest (List.splitOnP_ne_nil _ _)
      | cons part more => rfl

theorem parts_eq_components (path : String) :
    (parts path.toList).map String.ofList = components path := by
  rw [parts_eq_splitOn, components]

theorem mem_components {part : List Char} {path : String} :
    String.ofList part ∈ components path ↔ part ∈ parts path.toList := by
  rw [← parts_eq_components, List.mem_map]
  constructor
  · rintro ⟨other, hother, hsame⟩
    exact String.ofList_injective hsame ▸ hother
  · exact fun h => ⟨part, h, rfl⟩

theorem parts_ne_nil (path : List Char) : parts path ≠ [] := by
  rw [parts_eq_splitOn]
  exact List.splitOnP_ne_nil _ _

theorem parts_append (left right : List Char) :
    parts (left ++ '/' :: right) = parts left ++ parts right := by
  induction left with
  | nil => rfl
  | cons c rest ih =>
    rw [List.cons_append, parts, ih, parts]
    by_cases hslash : c = '/'
    · rw [if_pos hslash, if_pos hslash, List.cons_append]
    · rw [if_neg hslash, if_neg hslash]
      cases hrest : parts rest with
      | nil => exact absurd hrest (parts_ne_nil rest)
      | cons part more => rfl

theorem parts_of_no_slash {path : List Char} (h : '/' ∉ path) : parts path = [path] := by
  induction path with
  | nil => rfl
  | cons c rest ih =>
    obtain ⟨hc, hrest⟩ := not_or.mp (mt List.mem_cons.mpr h)
    rw [parts, if_neg (Ne.symm hc), ih hrest]

theorem parts_join (path reference : String) : parts (path ++ "/" ++ reference).toList =
    parts path.toList ++ parts reference.toList := by
  rw [← parts_append]
  simp

/-! Steps, and where they lead. -/

theorem steps_eq_filter (path : String) :
    steps path = (components path).filter fun c => c ≠ "" && c ≠ "." := by
  have hstep : ∀ part : List Char,
      isStep part = (String.ofList part ≠ "" && String.ofList part ≠ ".") := by
    intro part
    have hpoint : String.ofList part = "." ↔ part = ['.'] := by
      rw [← String.ofList_inj]
    rw [Bool.eq_iff_iff, isStep]
    simp [hpoint]
  rw [steps, ← parts_eq_components, List.filter_map]
  exact congrArg _ (List.filter_congr fun part _ => hstep part)

theorem steps_join (path reference : String) :
    steps (path ++ "/" ++ reference) = steps path ++ steps reference := by
  rw [steps, parts_join, List.filter_append, List.map_append]
  rfl

theorem follow_append (start : List String) (left right : List (List Char)) :
    follow start (left ++ right) = follow (follow start left) right := by
  induction left generalizing start with
  | nil => rfl
  | cons part rest ih =>
    simp only [List.cons_append, follow]
    split
    · split
      · exact ih _
      · exact ih _
    · exact ih _

/-- Parts that lead nowhere leave the place as it is. -/
theorem follow_of_points {points : List (List Char)}
    (h : ∀ part ∈ points, isStep part = false) (start : List String) :
    follow start points = start := by
  induction points with
  | nil => rfl
  | cons part rest ih =>
    rw [follow, h part List.mem_cons_self]
    exact ih fun part hpart => h part (List.mem_cons_of_mem _ hpart)

/-- Parts that never go up lead below the place they start from. -/
theorem follow_of_down {downward : List (List Char)} (h : up.toList ∉ downward)
    (start : List String) :
    follow start downward = start ++ (downward.filter isStep).map String.ofList := by
  induction downward generalizing start with
  | nil => exact (List.append_nil start).symm
  | cons part rest ih =>
    obtain ⟨hpart, hrest⟩ := not_or.mp (mt List.mem_cons.mpr h)
    rw [follow, if_neg (Ne.symm hpart), ih hrest, ih hrest, List.filter_cons]
    split
    · rw [List.map_cons, List.append_assoc, List.singleton_append]
    · rfl

theorem place_join {reference : String} (h : up.toList ∉ parts reference.toList)
    (path : String) : place (path ++ "/" ++ reference) = place path ++ steps reference := by
  rw [place, parts_join, follow_append, follow_of_down h]
  rfl

end Collate.Path
