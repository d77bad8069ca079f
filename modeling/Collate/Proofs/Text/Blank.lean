import Collate.Text.Blank
import Mathlib.Data.List.DropRight

/-!
Blank texts are those that trimming leaves nothing of. A text that was trimmed is not
changed by trimming it again.
-/

namespace Collate.Text

private theorem dropWhile_isBlank_eq_nil_iff (cs : List Char) :
    cs.dropWhile isBlank = [] ↔ cs.all isBlank = true := by
  induction cs with
  | nil => simp
  | cons c rest ih =>
    by_cases hc : isBlank c = true
    · simp [hc, ih]
    · simp [hc]

theorem trimChars_eq_nil_iff (cs : List Char) :
    trimChars cs = [] ↔ cs.all isBlank = true := by
  rw [trimChars, List.reverse_eq_nil_iff, dropWhile_isBlank_eq_nil_iff, List.all_reverse,
    ← dropWhile_isBlank_eq_nil_iff cs]
  constructor
  · intro h
    cases hkept : cs.dropWhile isBlank with
    | nil => rfl
    | cons c rest =>
      -- the first character kept is not blank
      have hc : isBlank c = false := by
        have hhead := List.head?_dropWhile_not isBlank cs
        simpa [hkept] using hhead
      simp [hkept, hc] at h
  · intro h
    simp [h]

private theorem all_dropWhile_isBlank (cs : List Char) :
    (cs.dropWhile isBlank).all isBlank = cs.all isBlank := by
  induction cs with
  | nil => rfl
  | cons c rest ih =>
    rw [List.dropWhile_cons]
    split
    · rename_i hc
      rw [ih, List.all_cons, hc, Bool.true_and]
    · rfl

/-- Trimming does not make a text blank. -/
@[simp] theorem isBlankText_trim (text : String) : isBlankText (trim text) = isBlankText text := by
  rw [isBlankText, trim, String.toList_ofList, trimChars, List.all_reverse,
    all_dropWhile_isBlank, List.all_reverse, all_dropWhile_isBlank, isBlankText]

theorem trim_isEmpty (text : String) : (trim text).isEmpty = isBlankText text := by
  rw [Bool.eq_iff_iff, isBlankText, ← trimChars_eq_nil_iff, trim]
  simp

theorem trimChars_trimChars (cs : List Char) : trimChars (trimChars cs) = trimChars cs := by
  have hbegin : trimChars cs <+: cs.dropWhile isBlank := List.rdropWhile_prefix isBlank _
  have hfront : (trimChars cs).dropWhile isBlank = trimChars cs := by
    rw [List.dropWhile_eq_self_iff]
    intro hlen
    -- the first character is that of the text without the blanks in front
    rw [hbegin.getElem hlen]
    exact List.dropWhile_get_zero_not _ _ (hlen.trans_le hbegin.length_le)
  calc trimChars (trimChars cs)
      = ((trimChars cs).dropWhile isBlank).rdropWhile isBlank := rfl
    _ = (trimChars cs).rdropWhile isBlank := by rw [hfront]
    _ = trimChars cs := List.rdropWhile_idempotent _ _

@[simp] theorem trim_trim (text : String) : trim (trim text) = trim text := by
  simp only [trim, String.toList_ofList, trimChars_trimChars]

end Collate.Text
