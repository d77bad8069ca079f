import Collate.Proofs.Json.Unify
import Collate.Proofs.Table.Growth
import Collate.Table.Flatten

/-!
Tables of payloads hold every leaf once. A row has the text of each leaf under the
keys that lead to it, and nothing else. Paths are told apart by their headers
because the separator is in no key, so no leaf is lost to another.
-/

namespace Collate.Table

open Json (LeafAt leaves leavesUnder DistinctKeys KeysAvoid)

/-! What is promised. -/

def scalarText : Json → String
  | .bool value => if value then "true" else "false"
  | .number n => String.ofList n.text
  | .string s => s
  | _ => ""

/-- The text of a leaf: scalars as such and side by side if they are in an array,
any other array as a document. -/
def leafText (delimiter : String) : Json → String
  | .array items =>
    if items.all Json.isScalar then delimiter.intercalate (items.map scalarText)
    else (Json.array items).text
  | .object _ => ""
  | scalar => scalarText scalar

/-- The elements of a document that is not empty. -/
def elements : Json → List Json
  | .null => []
  | .object [] => []
  | .array items => items
  | other => [other]

def pathHeader (options : FlattenOptions) (path : List String) : String :=
  options.separator.intercalate path

def elementHeaders (options : FlattenOptions) : Json → List String
  | .object fields => (leaves fields).map fun leaf => pathHeader options leaf.1
  | _ => [scalarColumn]

/-- A table holds a document: one row for each element, in it the text of each leaf
under the header of its path, and nothing else. -/
structure Holds (options : FlattenOptions) (doc : Json) (t : Table) : Prop where
  wellFormed : t.WellFormed
  void : doc = .null ∨ doc = .array [] ∨ doc = .object [] → t.headers = [] ∧ t.rows = []
  size : t.size = (elements doc).length
  /-- Headers in the order in which they are first called for. -/
  headers : t.headers = ((elements doc).flatMap (elementHeaders options)).eraseDups
  leaf : ∀ (n : Nat) (fields : List (String × Json)), (elements doc)[n]? = some (.object fields) →
    ∀ path value, LeafAt fields path value → pathHeader options path ∈ t.headers ∧
      t.cell n (pathHeader options path) = leafText options.delimiter value
  apart : ∀ fields, .object fields ∈ elements doc → ∀ path value path' value',
    LeafAt fields path value → LeafAt fields path' value' →
      pathHeader options path = pathHeader options path' → path = path' ∧ value = value'
  blank : ∀ (n : Nat) (fields : List (String × Json)), (elements doc)[n]? = some (.object fields) →
    ∀ header, (∀ path value, LeafAt fields path value → pathHeader options path ≠ header) →
      t.cell n header = ""
  single : ∀ (n : Nat) (value : Json), (elements doc)[n]? = some value →
    (∀ fields, value ≠ .object fields) → scalarColumn ∈ t.headers ∧
      t.cell n scalarColumn = leafText options.delimiter value ∧
      ∀ header, header ≠ scalarColumn → t.cell n header = ""

/-! Paths and headers. -/

/-- Paths whose keys do not have the separator are told apart by their headers. -/
theorem pathHeader_injective {options : FlattenOptions} {c : Char}
    (hsep : options.separator = String.singleton c) {path path' : List String}
    (hne : path ≠ []) (hne' : path' ≠ []) (havoid : ∀ key ∈ path, c ∉ key.toList)
    (havoid' : ∀ key ∈ path', c ∉ key.toList)
    (h : pathHeader options path = pathHeader options path') : path = path' := by
  have hsplit : ∀ keys : List String, keys ≠ [] → (∀ key ∈ keys, c ∉ key.toList) →
      (pathHeader options keys).toList.splitOn c = keys.map String.toList := by
    intro keys hkeys hfree
    rw [pathHeader, hsep, String.toList_intercalate, String.toList_singleton]
    refine List.splitOn_intercalate c ?_ (by simpa using hkeys)
    intro chars hchars
    obtain ⟨key, hkey, rfl⟩ := List.mem_map.mp hchars
    exact hfree key hkey
  have hlists : path.map String.toList = path'.map String.toList := by
    rw [← hsplit path hne havoid, ← hsplit path' hne' havoid', h]
  exact List.map_injective_iff.mpr (fun a b => String.toList_inj.mp) hlists

/-- The column of a path below another. -/
theorem columnName_pathHeader (options : FlattenOptions) (above : Option String) (key : String)
    {path : List String} (hne : path ≠ []) :
    columnName options (some (columnName options above key)) (pathHeader options path) =
      columnName options above (pathHeader options (key :: path)) := by
  rw [pathHeader, pathHeader, String.intercalate_cons_of_ne_nil hne]
  cases above with
  | none => rfl
  | some above => simp only [columnName, String.append_assoc]

theorem cell_of_scalar {value : Json} (h : value.isScalar = true) :
    value.cell = scalarText value := by
  cases value with
  | bool b => cases b <;> rfl
  | null => rfl
  | number n => rfl
  | string s => rfl
  | array items => simp [Json.isScalar] at h
  | object fields => simp [Json.isScalar] at h

theorem arrayCell_eq (options : FlattenOptions) (items : List Json) :
    arrayCell options items = leafText options.delimiter (.array items) := by
  simp only [arrayCell, leafText]
  split
  · rename_i hall
    have hcells : items.map Json.cell = items.map scalarText :=
      List.map_congr_left fun item hitem => cell_of_scalar (List.all_eq_true.mp hall item hitem)
    rw [hcells]
  · rfl

/-! The cells of a row are the leaves of its object. -/

def leafCell (options : FlattenOptions) (above : Option String) (leaf : List String × Json) :
    String × String :=
  (columnName options above (pathHeader options leaf.1), leafText options.delimiter leaf.2)

theorem valueCells_of_isLeaf (options : FlattenOptions) (header : String) {value : Json}
    (h : value.isLeaf = true) :
    valueCells options header value = [(header, leafText options.delimiter value)] := by
  cases value with
  | object fields =>
    cases fields with
    | nil => simp [valueCells, leafText]
    | cons field rest => simp [Json.isLeaf] at h
  | array items => rw [valueCells, arrayCell_eq]
  | null => rfl
  | bool b =>
    cases b with
    | true => rfl
    | false => rfl
  | number n => rfl
  | string s => rfl

theorem valueCells_leaf (options : FlattenOptions) (above : Option String) (key : String)
    {value : Json} (h : value.isLeaf = true) :
    valueCells options (columnName options above key) value =
      (leavesUnder key value).map (leafCell options above) := by
  rw [valueCells_of_isLeaf options _ h, Json.leavesUnder_of_isLeaf h, List.map_singleton, leafCell,
    pathHeader, String.intercalate_singleton]

mutual

theorem valueCells_eq (options : FlattenOptions) (above : Option String) (key : String) :
    ∀ value : Json, valueCells options (columnName options above key) value =
      (leavesUnder key value).map (leafCell options above)
  | .object (field :: rest) => by
    rw [valueCells, fieldCells_eq options (some (columnName options above key)) (field :: rest),
      leavesUnder, List.map_map]
    apply List.map_congr_left
    intro leaf hleaf
    have hne := ((Json.mem_leaves leaf.1 leaf.2 (field :: rest)).mp hleaf).ne_nil
    simp only [Function.comp_apply, leafCell, columnName_pathHeader options above key hne]
  | .object [] => valueCells_leaf options above key rfl
  | .array _ => valueCells_leaf options above key rfl
  | .null => valueCells_leaf options above key rfl
  | .bool _ => valueCells_leaf options above key rfl
  | .number _ => valueCells_leaf options above key rfl
  | .string _ => valueCells_leaf options above key rfl

theorem fieldCells_eq (options : FlattenOptions) (above : Option String) :
    ∀ fields : List (String × Json),
      fieldCells options above fields = (leaves fields).map (leafCell options above)
  | [] => rfl
  | (key, value) :: rest => by
    rw [fieldCells, leaves, List.map_append, valueCells_eq options above key value,
      fieldCells_eq options above rest]

end

theorem recordCells_object (options : FlattenOptions) (fields : List (String × Json)) :
    recordCells options (.object fields) = (leaves fields).map (leafCell options none) :=
  fieldCells_eq options none fields

theorem recordCells_single (options : FlattenOptions) {value : Json}
    (h : ∀ fields, value ≠ .object fields) :
    recordCells options value = [(scalarColumn, leafText options.delimiter value)] := by
  cases value with
  | object fields => exact absurd rfl (h fields)
  | array items => rw [recordCells, arrayCell_eq]
  | null => rfl
  | bool b =>
    cases b with
    | true => rfl
    | false => rfl
  | number n => rfl
  | string s => rfl

theorem recordCells_headers (options : FlattenOptions) (value : Json) :
    (recordCells options value).map (·.1) = elementHeaders options value := by
  cases value with
  | object fields =>
    rw [recordCells_object, List.map_map]
    rfl
  | _ => rfl

theorem records_eq (doc : Json) : records doc = elements doc := by
  cases doc with
  | array items =>
    cases items with
    | nil => rfl
    | cons item rest => rfl
  | object fields =>
    cases fields with
    | nil => rfl
    | cons field rest => rfl
  | _ => rfl

/-- The cells of the row of an element. -/
theorem ofPayload_cell (options : FlattenOptions) {doc value : Json} {n : Nat}
    (h : (elements doc)[n]? = some value) (header : String) :
    (ofPayload options doc).cell n header =
      rowCell (Dict.ofList (recordCells options value)) header := by
  rw [cell_eq_rowCell, ofPayload, ofRecords, foldl_pushRow_cells empty_wellFormed, records_eq]
  simp [Table.empty, h]

theorem ofPayload_headers (options : FlattenOptions) (doc : Json) :
    (ofPayload options doc).headers =
      ((elements doc).flatMap (elementHeaders options)).eraseDups := by
  rw [ofPayload, ofRecords, foldl_pushRow_headers empty_wellFormed, records_eq,
    List.flatMap_map]
  simp only [recordCells_headers]
  rfl

theorem elementHeaders_mem (options : FlattenOptions) {doc value : Json} {n : Nat}
    (h : (elements doc)[n]? = some value) {header : String}
    (hheader : header ∈ elementHeaders options value) :
    header ∈ (ofPayload options doc).headers := by
  rw [ofPayload_headers, List.mem_eraseDups, List.mem_flatMap]
  exact ⟨value, List.mem_of_getElem? h, hheader⟩

/-! Elements of documents. -/

theorem mem_elements {doc value : Json} (h : value ∈ elements doc) :
    value = doc ∨ ∃ items, doc = .array items ∧ value ∈ items := by
  unfold elements at h
  split at h
  · cases h
  · cases h
  · exact Or.inr ⟨_, rfl, h⟩
  · exact Or.inl (List.mem_singleton.mp h)

theorem distinctKeys_element {doc value : Json} (h : doc.DistinctKeys)
    (hmem : value ∈ elements doc) : value.DistinctKeys := by
  rcases mem_elements hmem with rfl | ⟨items, rfl, hitem⟩
  · exact h
  · exact h.item hitem

theorem keysAvoid_element {doc value : Json} {c : Char} (h : doc.KeysAvoid c)
    (hmem : value ∈ elements doc) : value.KeysAvoid c := by
  rcases mem_elements hmem with rfl | ⟨items, rfl, hitem⟩
  · exact h
  · exact h.item hitem

section

variable {options : FlattenOptions} {c : Char} {fields : List (String × Json)}
  (hsep : options.separator = String.singleton c) (havoid : KeysAvoid c (.object fields))

include hsep havoid

theorem pathHeader_apart {path path' : List String} {value value' : Json}
    (h : LeafAt fields path value) (h' : LeafAt fields path' value')
    (heq : pathHeader options path = pathHeader options path') : path = path' :=
  pathHeader_injective hsep h.ne_nil h'.ne_nil (h.avoids havoid) (h'.avoids havoid) heq

/-- The cells of an object are under distinct headers. -/
theorem recordCells_nodup (hdistinct : DistinctKeys (.object fields)) :
    ((recordCells options (.object fields)).map (·.1)).Nodup := by
  rw [recordCells_headers, elementHeaders]
  have hpaths := Json.leaves_nodup fields hdistinct
  have hmap : ((leaves fields).map fun leaf => pathHeader options leaf.1) =
      ((leaves fields).map (·.1)).map (pathHeader options) := by
    rw [List.map_map]
    rfl
  rw [hmap]
  refine List.Nodup.map_on ?_ hpaths
  intro path hpath path' hpath' heq
  obtain ⟨leaf, hleaf, rfl⟩ := List.mem_map.mp hpath
  obtain ⟨leaf', hleaf', rfl⟩ := List.mem_map.mp hpath'
  exact pathHeader_apart hsep havoid ((Json.mem_leaves leaf.1 leaf.2 fields).mp hleaf)
    ((Json.mem_leaves leaf'.1 leaf'.2 fields).mp hleaf') heq

end

/-- A document without repeated keys is held by its table, if the separator is a
character that is in no key. -/
theorem ofPayload_holds {options : FlattenOptions} {c : Char}
    (hsep : options.separator = String.singleton c) {doc : Json} (hdistinct : doc.DistinctKeys)
    (havoid : doc.KeysAvoid c) : Holds options doc (ofPayload options doc) where
  wellFormed := ofRecords_wellFormed _
  void := by
    rintro (rfl | rfl | rfl)
    · exact ⟨rfl, rfl⟩
    · exact ⟨rfl, rfl⟩
    · exact ⟨rfl, rfl⟩
  size := by
    have hcells := congrArg List.length
      (foldl_pushRow_cells empty_wellFormed ((records doc).map (recordCells options)))
    simpa [ofPayload, ofRecords, Table.size, Table.empty, records_eq] using hcells
  headers := ofPayload_headers options doc
  leaf := by
    intro n fields hfields path value hleaf
    have hmem := List.mem_of_getElem? hfields
    have hcells := (Json.mem_leaves path value fields).mpr hleaf
    refine ⟨elementHeaders_mem options hfields (List.mem_map_of_mem hcells), ?_⟩
    rw [ofPayload_cell options hfields]
    refine rowCell_ofList (recordCells_nodup hsep (keysAvoid_element havoid hmem)
      (distinctKeys_element hdistinct hmem)) ?_
    rw [recordCells_object]
    exact List.mem_map_of_mem hcells
  apart := by
    intro fields hmem path value path' value' hleaf hleaf' heq
    have hpath := pathHeader_apart hsep (keysAvoid_element havoid hmem) hleaf hleaf' heq
    subst hpath
    exact ⟨rfl, hleaf.unique hleaf' (distinctKeys_element hdistinct hmem)⟩
  blank := by
    intro n fields hfields header hnone
    rw [ofPayload_cell options hfields]
    apply rowCell_ofList_of_not_mem
    rw [recordCells_headers]
    intro hheader
    obtain ⟨leaf, hleaf, rfl⟩ := List.mem_map.mp hheader
    exact hnone leaf.1 leaf.2 ((Json.mem_leaves leaf.1 leaf.2 fields).mp hleaf) rfl
  single := by
    intro n value hvalue hsingle
    have hcells := recordCells_single options hsingle
    have hheaders := recordCells_headers options value
    rw [hcells, List.map_singleton] at hheaders
    refine ⟨elementHeaders_mem options hvalue (hheaders ▸ List.mem_singleton.mpr rfl), ?_, ?_⟩
    · rw [ofPayload_cell options hvalue, hcells]
      exact rowCell_ofList (by simp) (List.mem_singleton.mpr rfl)
    · intro header hne
      rw [ofPayload_cell options hvalue, hcells]
      exact rowCell_ofList_of_not_mem (by simpa using hne)

/-! An empty key, an empty object and a scalar beside an object. -/

private def inner : List (String × Json) := [("b", .number (.integer 1)), ("", .null)]

private def outer : List (String × Json) :=
  [("a", .object inner), ("c", .object []), ("d", .array [.string "x", .bool true])]

private def mixed : Json := .array [.object outer, .string "y"]

private theorem objects_of_mixed {fields : List (String × Json)}
    (h : Json.Within (.object fields) mixed) : fields = outer ∨ fields = inner ∨ fields = [] := by
  simpa (disch := decide) [mixed, outer, inner, or_assoc] using h

/-- Its five leaves are under five headers. -/
theorem ofPayload_holds_mixed : FlattenOptions.standard.separator = String.singleton '.' ∧
    mixed.DistinctKeys ∧ mixed.KeysAvoid '.' ∧
    Holds .standard mixed (ofPayload .standard mixed) ∧
    (ofPayload .standard mixed).headers = ["a.b", "a.", "c", "d", "value"] := by
  have hsep : FlattenOptions.standard.separator = String.singleton '.' := rfl
  have hdistinct : mixed.DistinctKeys := by
    intro fields hfields
    rcases objects_of_mixed hfields with rfl | rfl | rfl
    · decide
    · decide
    · decide
  have havoid : mixed.KeysAvoid '.' := by
    intro fields hfields
    rcases objects_of_mixed hfields with rfl | rfl | rfl
    · simp [outer]
    · simp [inner]
    · simp
  exact ⟨hsep, hdistinct, havoid, ofPayload_holds hsep hdistinct havoid, by decide +kernel⟩

end Collate.Table
