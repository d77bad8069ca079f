import Collate.Proofs.Table.Growth

/-!
Renaming columns. Every header is looked up once, so chains of renames are not
followed and names can be swapped. Columns that land on one name become one column,
and each row has there the first cell that is not empty: that of the column that had
the name before, if it kept it, and then those of the others in header order. Where
no two columns land on one name nothing is lost, and renaming can be taken back.
-/

namespace Collate.Table

/-! What is promised. -/

def firstText (texts : List String) : String :=
  (texts.find? fun text => text != "").getD ""

/-- The columns that are renamed to a name, in header order. -/
def movedTo (renames : Dict String) (headers : List String) (name : String) : List String :=
  headers.filter fun h => h ≠ name ∧ target renames h = name

def foldedCell (renames : Dict String) (headers : List String) (row : Row) (name : String) :
    String :=
  if name ∈ headers ∧ target renames name = name ∧ rowCell row name ≠ "" then rowCell row name
  else firstText ((movedTo renames headers name).map (rowCell row))

/-- A table after renaming, cell by cell. -/
def folded (t : Table) (renames : Dict String) : Table :=
  let names := (t.headers.map (target renames)).eraseDups
  ⟨names, t.rows.map fun row => rowOf names (foldedCell renames t.headers row)⟩

/-- The renames that take headers back where they came from. -/
def inverse (renames : Dict String) (headers : List String) : Dict String :=
  Dict.ofList (headers.map fun h => (target renames h, h))

/-! Folding cells. -/

theorem firstText_cons (text : String) (texts : List String) :
    firstText (text :: texts) = if text = "" then firstText texts else text := by
  by_cases hempty : text = ""
  · simp [firstText, hempty]
  · simp [firstText, hempty]

theorem firstText_of_forall_eq {texts : List String} {text : String}
    (h : ∀ other ∈ texts, other = text) (hmem : text ∈ texts) : firstText texts = text := by
  cases texts with
  | nil => cases hmem
  | cons first rest =>
    obtain rfl := h first List.mem_cons_self
    rw [firstText_cons]
    by_cases hempty : first = ""
    · -- then all of them are empty
      have hnone : (rest.find? fun other => other != "") = none := by
        rw [List.find?_eq_none]
        intro other hother
        simp [h other (List.mem_cons_of_mem _ hother), hempty]
      rw [if_pos hempty, firstText, hnone, hempty]
      rfl
    · rw [if_neg hempty]

theorem rowCell_fold (source out : Row) (move : String × String) (name : String) :
    rowCell (fold source out move) name = if move.2 = name ∧ rowCell out name = ""
      then rowCell source move.1 else rowCell out name := by
  unfold fold
  by_cases hname : move.2 = name
  · subst hname
    by_cases hempty : rowCell out move.2 = ""
    · rw [if_pos hempty, if_pos ⟨rfl, hempty⟩, rowCell, Dict.get?_insert, if_pos rfl]
      rfl
    · simp [hempty]
  · by_cases hempty : rowCell out move.2 = ""
    · rw [if_pos hempty, if_neg fun h => hname h.1, rowCell, Dict.get?_insert, if_neg hname]
      rfl
    · simp [hempty, hname]

/-- Folding columns in leaves what is there and fills what is empty with the first
text that lands there. -/
theorem rowCell_foldl_fold (source : Row) (moves : List (String × String)) (out : Row)
    (name : String) : rowCell (moves.foldl (fold source) out) name =
      if rowCell out name ≠ "" then rowCell out name
      else firstText ((moves.filter fun m => m.2 = name).map fun m => rowCell source m.1) := by
  induction moves generalizing out with
  | nil =>
    by_cases hempty : rowCell out name = ""
    · simp [hempty, firstText]
    · simp [hempty]
  | cons move rest ih =>
    rw [List.foldl_cons, ih, rowCell_fold]
    by_cases hname : move.2 = name
    · by_cases hempty : rowCell out name = ""
      · simp [hname, hempty, firstText_cons]
      · simp [hname, hempty]
    · simp [hname]

/-! One row. -/

section

variable (renames : Dict String) (headers : List String) (row : Row)

/-- The cells that are put into a row first, those of the columns that keep their
name. -/
theorem ofList_kept :
    Dict.ofList (((headers.map fun h => (h, target renames h)).filter fun m => m.1 == m.2).map
      fun m => (m.2, rowCell row m.1)) =
      rowOf (headers.filter fun h => target renames h = h) (rowCell row) := by
  rw [rowOf, List.filter_map, List.map_map]
  have hkept : (headers.filter ((fun m => m.1 == m.2) ∘ fun h => (h, target renames h))) =
      headers.filter fun h => target renames h = h := by
    apply List.filter_congr
    intro h _
    simp [eq_comm, beq_eq_decide]
  rw [hkept]
  congr 1
  apply List.map_congr_left
  intro h hh
  have htarget : target renames h = h := by simpa using (List.mem_filter.mp hh).2
  simp only [Function.comp_apply, htarget]

theorem rowCell_kept (name : String) :
    rowCell (rowOf (headers.filter fun h => target renames h = h) (rowCell row)) name =
      if name ∈ headers ∧ target renames name = name then rowCell row name else "" := by
  rw [rowCell, get?_rowOf]
  simp only [List.mem_filter, decide_eq_true_eq]
  split
  · rfl
  · rfl

/-- The cells that are folded in under a name. -/
theorem map_moved (name : String) :
    (((headers.map fun h => (h, target renames h)).filter fun m => m.1 != m.2).filter
      fun m => m.2 = name).map (fun m => rowCell row m.1) =
      (movedTo renames headers name).map (rowCell row) := by
  rw [List.filter_filter, List.filter_map, List.map_map, movedTo]
  congr 1
  apply List.filter_congr
  intro h _
  by_cases hname : target renames h = name
  · simp [hname, bne, beq_eq_decide]
  · simp [hname]

theorem rowCell_renameRow (name : String) :
    rowCell (renameRow (headers.map fun h => (h, target renames h)) row) name =
      foldedCell renames headers row name := by
  rw [renameRow, ofList_kept, rowCell_foldl_fold, rowCell_kept, map_moved, foldedCell]
  by_cases hkept : name ∈ headers ∧ target renames name = name
  · simp only [hkept, if_true, true_and]
  · simp only [hkept, if_false, ← and_assoc, ne_eq, not_true_eq_false, false_and]

theorem renameRow_eq :
    renameRow (headers.map fun h => (h, target renames h)) row =
      rowOf (headers.map (target renames)) (foldedCell renames headers row) := by
  have hfits : Fits (headers.map (target renames))
      (renameRow (headers.map fun h => (h, target renames h)) row) := by
    intro name
    rw [contains_renameRow, List.map_map]
    rfl
  rw [← rowOf_rowCell hfits]
  exact congrArg _ (funext fun name => rowCell_renameRow renames headers row name)

variable {headers}

/-- Under a name that one column lands on there is the cell of that column. -/
theorem foldedCell_of_sole {h : String} (hmem : h ∈ headers)
    (hsole : ∀ other ∈ headers, target renames other = target renames h → other = h) :
    foldedCell renames headers row (target renames h) = rowCell row h := by
  unfold foldedCell
  by_cases htarget : target renames h = h
  · rw [htarget]
    by_cases hempty : rowCell row h = ""
    · have hnone : movedTo renames headers h = [] := by
        rw [movedTo, List.filter_eq_nil_iff]
        intro other hother
        simpa using fun hne heq => hne (hsole other hother (heq.trans htarget.symm))
      rw [if_neg fun hc => hc.2.2 hempty, hnone, hempty]
      rfl
    · rw [if_pos ⟨hmem, htarget, hempty⟩]
  · -- the name is new, so no column kept it
    have hnew : ¬(target renames h ∈ headers ∧ target renames (target renames h) =
        target renames h ∧ rowCell row (target renames h) ≠ "") :=
      fun hc => htarget (hsole _ hc.1 hc.2.1)
    rw [if_neg hnew]
    apply firstText_of_forall_eq
    · intro text htext
      obtain ⟨other, hother, rfl⟩ := List.mem_map.mp htext
      obtain ⟨hheader, hmoved⟩ := List.mem_filter.mp hother
      rw [hsole other hheader (by simpa using (of_decide_eq_true hmoved).2)]
    · refine List.mem_map_of_mem (List.mem_filter.mpr ⟨hmem, ?_⟩)
      simpa using Ne.symm htarget

variable {renames}

/-- A cell is the same after renaming and taking that back. -/
theorem foldedCell_back {back : Dict String}
    (hback : ∀ h ∈ headers, target back (target renames h) = h) {h : String} (hmem : h ∈ headers) :
    foldedCell back (headers.map (target renames))
      (rowOf (headers.map (target renames)) (foldedCell renames headers row)) h =
        rowCell row h := by
  have hthere : target renames h ∈ headers.map (target renames) := List.mem_map_of_mem hmem
  have hsole : ∀ other ∈ headers, target renames other = target renames h → other = h := by
    intro other hother heq
    rw [← hback other hother, heq, hback h hmem]
  have hsoleBack : ∀ other ∈ headers.map (target renames),
      target back other = target back (target renames h) → other = target renames h := by
    intro other hother heq
    obtain ⟨origin, horigin, rfl⟩ := List.mem_map.mp hother
    rw [hback origin horigin, hback h hmem] at heq
    rw [heq]
  have houter := foldedCell_of_sole back
    (rowOf (headers.map (target renames)) (foldedCell renames headers row)) hthere hsoleBack
  rw [hback h hmem] at houter
  rw [houter, rowCell_rowOf hthere, foldedCell_of_sole renames row hmem hsole]

end

/-! Whole tables. -/

variable {t : Table} {renames : Dict String}

/-- Names under which the columns are already change nothing. -/
theorem WellFormed.folded_of_kept (h : t.WellFormed)
    (hkept : ∀ header ∈ t.headers, target renames header = header) : t.folded renames = t := by
  have hnames : (t.headers.map (target renames)).eraseDups = t.headers := by
    have hid : t.headers.map (target renames) = t.headers.map id := List.map_congr_left hkept
    rw [hid, List.map_id, eraseDups_of_nodup h.headers_nodup]
  have hrows : t.rows.map (fun row => rowOf t.headers (foldedCell renames t.headers row)) =
      t.rows.map id := by
    apply List.map_congr_left
    intro row hrow
    have hcells : ∀ header ∈ t.headers,
        foldedCell renames t.headers row header = rowCell row header := by
      intro header hheader
      have hsole := foldedCell_of_sole renames row hheader fun other hother heq =>
        (hkept other hother).symm.trans (heq.trans (hkept header hheader))
      rwa [hkept header hheader] at hsole
    rw [rowOf_congr (fun _ => Iff.rfl) hcells, rowOf_rowCell (h.cells row hrow), id]
  simp only [folded, hnames, hrows, List.map_id]

/-- Renaming folds columns. -/
theorem WellFormed.rename_eq (h : t.WellFormed) (renames : Dict String) :
    t.rename renames = t.folded renames := by
  have hall : ((t.headers.map fun h => (h, target renames h)).all fun m => m.1 == m.2) = true ↔
      ∀ header ∈ t.headers, target renames header = header := by
    simp only [List.all_map, List.all_eq_true, Function.comp_apply, beq_iff_eq]
    exact forall₂_congr fun _ _ => eq_comm
  simp only [Table.rename]
  by_cases hkept : ∀ header ∈ t.headers, target renames header = header
  · rw [if_pos (hall.mpr hkept), h.folded_of_kept hkept]
  · have hnames : (Table.withHeaders ((t.headers.map fun h => (h, target renames h)).map
        fun m => m.2)).headers = (t.headers.map (target renames)).eraseDups := by
      rw [List.map_map, withHeaders_eq]
      rfl
    rw [if_neg (hkept ∘ hall.mp), hnames, folded]
    congr 1
    apply List.map_congr_left
    intro row _
    rw [renameRow_eq]
    exact rowOf_congr (fun _ => List.mem_eraseDups.symm) fun _ _ => rfl

/-- Renaming is taken back by renames that lead every header home. -/
theorem WellFormed.rename_rename (h : t.WellFormed) {back : Dict String}
    (hback : ∀ header ∈ t.headers, target back (target renames header) = header) :
    (t.rename renames).rename back = t := by
  have hinjective : ∀ a ∈ t.headers, ∀ b ∈ t.headers,
      target renames a = target renames b → a = b := by
    intro a ha b hb heq
    rw [← hback a ha, heq, hback b hb]
  have hnames : (t.headers.map (target renames)).eraseDups = t.headers.map (target renames) :=
    eraseDups_of_nodup (h.headers_nodup.map_on hinjective)
  have hheaders : (t.headers.map (target renames)).map (target back) = t.headers := by
    have hid : t.headers.map (target back ∘ target renames) = t.headers.map id :=
      List.map_congr_left hback
    rw [List.map_map, hid, List.map_id]
  have hrows : t.rows.map ((fun row => rowOf t.headers
      (foldedCell back (t.headers.map (target renames)) row)) ∘
        fun row => rowOf (t.headers.map (target renames)) (foldedCell renames t.headers row)) =
      t.rows.map id := by
    apply List.map_congr_left
    intro row hrow
    rw [Function.comp_apply, rowOf_congr (fun _ => Iff.rfl) fun _ => foldedCell_back row hback,
      rowOf_rowCell (h.cells row hrow), id]
  rw [(h.rename renames).rename_eq, h.rename_eq]
  simp only [folded, hnames, hheaders, eraseDups_of_nodup h.headers_nodup, List.map_map, hrows,
    List.map_id]

/-- The inverse of renames under which no two headers meet leads every header
home. -/
theorem target_inverse {headers : List String} (hnodup : headers.Nodup)
    (hinjective : ∀ a ∈ headers, ∀ b ∈ headers, target renames a = target renames b → a = b)
    {h : String} (hmem : h ∈ headers) :
    target (inverse renames headers) (target renames h) = h := by
  have hkeys : (headers.map fun h => (target renames h, h)).map (·.1) =
      headers.map (target renames) := by
    rw [List.map_map]
    rfl
  have hdistinct : ((headers.map fun h => (target renames h, h)).map (·.1)).Nodup :=
    hkeys ▸ hnodup.map_on hinjective
  have hfound : (inverse renames headers).get? (target renames h) = some h := by
    rw [inverse, Dict.get?_ofList hdistinct]
    exact Dict.find_of_mem hdistinct (List.mem_map_of_mem hmem)
  rw [target, hfound, Option.getD_some]

/-- Renaming looks every header up once and folds the columns that land on one name.
If no two do, then renaming by the inverse, or by any other renames that lead every
header home, restores the table. -/
theorem rename_folds_columns {t : Table} (h : t.WellFormed) (renames : Dict String) :
    t.rename renames = t.folded renames ∧
    ((∀ a ∈ t.headers, ∀ b ∈ t.headers, target renames a = target renames b → a = b) →
      (t.rename renames).rename (inverse renames t.headers) = t) ∧
    ∀ back : Dict String, (∀ header ∈ t.headers, target back (target renames header) = header) →
      (t.rename renames).rename back = t :=
  ⟨h.rename_eq renames,
    fun hinjective => h.rename_rename fun _ => target_inverse h.headers_nodup hinjective,
    fun _ => h.rename_rename⟩

/-- Three columns meet under a name that one of them has; two swap their names, and a
third takes one that is free by then. -/
theorem rename_folds_columns_swapped :
    let t := ofRecords [[("tel", ""), ("phone", ""), ("fax", "3"), ("a", "4"), ("b", "5")],
      [("tel", "6"), ("phone", "7"), ("fax", "8")]]
    let meet := Dict.ofList [("tel", "phone"), ("fax", "phone"), ("a", "b"), ("b", "a")]
    let shift := Dict.ofList [("a", "b"), ("b", "a"), ("tel", "phone"), ("phone", "fax"),
      ("fax", "old"), ("absent", "tel")]
    t.WellFormed ∧ t.rename meet = t.folded meet ∧
      (t.rename meet).headers = ["phone", "b", "a"] ∧
      (t.rename meet).rows.map (fun row => ["phone", "b", "a"].map (rowCell row)) =
        [["3", "4", "5"], ["7", "", ""]] ∧
      (∀ a ∈ t.headers, ∀ b ∈ t.headers, target shift a = target shift b → a = b) ∧
      (t.rename shift).headers = ["phone", "fax", "old", "b", "a"] ∧
      (t.rename shift).rename (inverse shift t.headers) = t := by
  intro t meet shift
  have hw : t.WellFormed := ofRecords_wellFormed _
  have hinjective : ∀ a ∈ t.headers, ∀ b ∈ t.headers, target shift a = target shift b → a = b := by
    decide +kernel
  exact ⟨hw, (rename_folds_columns hw meet).1, by decide +kernel, by decide +kernel, hinjective,
    by decide +kernel, (rename_folds_columns hw shift).2.1 hinjective⟩

end Collate.Table
