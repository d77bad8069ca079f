import Collate.Proofs.Dict
import Collate.Proofs.Store.Steps
import Collate.Proofs.Text.Utf8
import Collate.Proofs.Workbook.HeaderTexts

/-!
The same headers in two workbooks. In one the cells of every sheet hold their texts, in
the other they refer to a part with shared texts; all else is the same. What the two give
differs by what stands in verbatim sections, which only shared texts keep.
-/

namespace Collate.Workbook

/-- A sheet of a workbook: its name, where it is, the texts of its headers, the places of
these texts among shared ones, and what comes behind the first row. -/
structure HeaderSheet where
  name : String
  part : String
  texts : List HeaderText
  places : List Nat
  rest : List Char

def HeaderSheet.headers (sheet : HeaderSheet) (counted : Bool) : List String :=
  sheet.texts.filterMap fun text => header? (text.content counted)

def writtenSheets (cells : HeaderSheet → List (List Char)) (sheets : List HeaderSheet) :
    List (String × List Char) :=
  sheets.map fun sheet => (sheet.part, sheetPart (cells sheet) sheet.rest)

namespace Archive

def sheetParts (a : Archive) : Except WorkbookFault (List (String × String)) := do
  let some list ← a.markup? sheetListPart | .error .noSheetList
  let sheets := listedSheets (← events list)
  let targets := relationTargets (← a.eventsOf relationsPart)
  .ok (sheets.mapIdx fun index sheet => (sheet.name, sheet.part targets index))

def withParts (a : Archive) (parts : List (String × List Char)) : Archive :=
  ⟨a.entries ++ parts.map fun part => (part.1, Text.Utf8.encode part.2)⟩

def inlined (a : Archive) (sheets : List HeaderSheet) : Archive :=
  a.withParts (writtenSheets (fun sheet => sheet.texts.map inlineCell) sheets)

def shared (a : Archive) (table : List HeaderText) (sheets : List HeaderSheet) : Archive :=
  a.withParts ((sharedTextPart, textPart table) ::
    writtenSheets (fun sheet => sheet.places.map sharedCell) sheets)

variable {a : Archive} {parts : List (String × List Char)} {name : String}

theorem entry?_withParts_of_notMem (h : name ∉ parts.map (·.1)) :
    entry? (a.withParts parts) name = a.entry? name := by
  have hnone : (parts.map fun part => (part.1, Text.Utf8.encode part.2)).reverse.find?
      (·.1 == name) = none := by
    rw [List.find?_eq_none]
    intro entry hentry hname
    obtain ⟨part, hpart, rfl⟩ := List.mem_map.mp (List.mem_reverse.mp hentry)
    exact h (List.mem_map.mpr ⟨part, hpart, beq_iff_eq.mp hname⟩)
  unfold entry?
  rw [withParts, List.reverse_append, List.find?_append, hnone]
  rfl

theorem markup?_withParts_of_notMem (h : name ∉ parts.map (·.1)) :
    (a.withParts parts).markup? name = a.markup? name := by
  rw [markup?, markup?, entry?_withParts_of_notMem h]

theorem entry?_withParts {text : List Char} (hnodup : (parts.map (·.1)).Nodup)
    (h : (name, text) ∈ parts) :
    entry? (a.withParts parts) name = some (Text.Utf8.encode text) := by
  have hfind : ∀ entries : List (String × Octets), (entries.map (·.1)).Nodup →
      (name, Text.Utf8.encode text) ∈ entries →
      entries.find? (·.1 == name) = some (name, Text.Utf8.encode text) := by
    intro entries hnodup hmem
    induction entries with
    | nil => cases hmem
    | cons entry rest ih =>
      obtain ⟨hnew, hrest⟩ := List.nodup_cons.mp hnodup
      rcases List.mem_cons.mp hmem with rfl | hmem
      · simp
      · have hne : entry.1 ≠ name := fun heq => hnew (List.mem_map.mpr ⟨_, hmem, heq.symm⟩)
        rw [List.find?_cons_of_neg (by simpa using hne), ih hrest hmem]
  unfold entry?
  rw [withParts, List.reverse_append, List.find?_append, hfind]
  · rfl
  · rw [List.map_reverse, List.nodup_reverse, List.map_map]
    exact hnodup
  · exact List.mem_reverse.mpr (List.mem_map.mpr ⟨(name, text), h, rfl⟩)

theorem markup?_withParts {text : List Char} (hnodup : (parts.map (·.1)).Nodup)
    (h : (name, text) ∈ parts) :
    (a.withParts parts).markup? name = .ok (some (Markup.read text)) := by
  rw [markup?, entry?_withParts hnodup h]
  simp

/-- Other parts do not change what the archive lists. -/
theorem sheetParts_withParts (hlist : sheetListPart ∉ parts.map (·.1))
    (hrelations : relationsPart ∉ parts.map (·.1)) :
    (a.withParts parts).sheetParts = a.sheetParts := by
  simp only [sheetParts, eventsOf, markup?_withParts_of_notMem hlist,
    markup?_withParts_of_notMem hrelations]

theorem headersOfSheets_eq_ok {targets : List (String × String)} {texts : List (List Char)}
    {f : HeaderSheet → List String} {listed : List Sheet} {index : Nat}
    {sheets : List HeaderSheet}
    (hlisted : listed.mapIdx (fun i sheet => (sheet.name, sheet.part targets (index + i))) =
      sheets.map fun sheet => (sheet.name, sheet.part))
    (hheaders : ∀ sheet ∈ sheets, a.headersOf texts sheet.part = .ok (f sheet)) :
    a.headersOfSheets targets texts index listed =
      .ok (sheets.map fun sheet => (sheet.name, f sheet)) := by
  induction listed generalizing index sheets with
  | nil =>
    cases sheets with
    | nil => rfl
    | cons => cases hlisted
  | cons first rest ih =>
    cases sheets with
    | nil => simp at hlisted
    | cons sheet sheets =>
      obtain ⟨hfirst, hrest⟩ := List.forall_mem_cons.mp hheaders
      simp only [List.mapIdx_cons, List.map_cons, List.cons.injEq, Prod.mk.injEq,
        Nat.add_zero] at hlisted
      obtain ⟨⟨hname, hpart⟩, hlisted⟩ := hlisted
      have hlisted' :
          rest.mapIdx (fun i sheet => (sheet.name, sheet.part targets (index + 1 + i))) =
            sheets.map fun sheet => (sheet.name, sheet.part) := by
        simpa only [Nat.add_assoc, Nat.add_comm 1] using hlisted
      have hmore := ih hlisted' hrest
      simp only [headersOfSheets, hpart, hfirst, hmore, hname]
      rfl

/-- The headers of an archive, from the sheets that it lists. -/
theorem headers_of_sheets {sheets : List HeaderSheet} {shared : List Event}
    {f : HeaderSheet → List String}
    (hlisted : a.sheetParts = .ok (sheets.map fun sheet => (sheet.name, sheet.part)))
    (hshared : a.eventsOf sharedTextPart = .ok shared)
    (hheaders : ∀ sheet ∈ sheets,
      a.headersOf (sharedTexts shared) sheet.part = .ok (f sheet)) :
    a.headers = .ok (Dict.ofList (sheets.map fun sheet => (sheet.name, f sheet))) := by
  simp only [sheetParts, Except.bind_eq_ok] at hlisted
  obtain ⟨list, hlist, hlisted⟩ := hlisted
  cases list with
  | none => cases hlisted
  | some list =>
    obtain ⟨met, hmet, targets, htargets, hparts⟩ := by simpa only [Except.bind_eq_ok] using hlisted
    have hmapped : (listedSheets met).mapIdx (fun index sheet =>
        (sheet.name, sheet.part (relationTargets targets) (0 + index))) =
        sheets.map fun sheet => (sheet.name, sheet.part) := by
      simpa using hparts
    exact Except.bind_eq_ok.mpr ⟨_, hlist, Except.bind_eq_ok.mpr ⟨_, hmet, Except.bind_eq_ok.mpr
      ⟨_, htargets, Except.bind_eq_ok.mpr ⟨_, hshared, Except.bind_eq_ok.mpr
        ⟨_, headersOfSheets_eq_ok hmapped hheaders, rfl⟩⟩⟩⟩⟩

end Archive

/-! The two workbooks. -/

/-- An archive that lists the sheets, each with a part of its own, and has no part with shared
texts that is not well formed. -/
structure Archive.Lists (a : Archive) (sheets : List HeaderSheet) : Prop where
  listed : a.sheetParts = .ok (sheets.map fun sheet => (sheet.name, sheet.part))
  shared : ∃ events, a.eventsOf sharedTextPart = .ok events
  distinct : (sheets.map (·.part)).Nodup
  apart : ∀ sheet ∈ sheets, sheet.part ∉ [sheetListPart, relationsPart, sharedTextPart]

/-- The headers of a sheet stand at its places in the table. -/
def HeaderSheet.Refers (table : List HeaderText) (sheet : HeaderSheet) : Prop :=
  List.Forall₂ (fun place text => table[place]? = some text) sheet.places sheet.texts

variable {a : Archive} {sheets : List HeaderSheet} {table : List HeaderText}

theorem gives_inline (shared : List (List Char)) (sheet : HeaderSheet) :
    List.Forall₂ (Gives shared) (sheet.texts.map inlineCell)
      (sheet.texts.map (·.content false)) := by
  rw [List.forall₂_map_left_iff, List.forall₂_map_right_iff, List.forall₂_same]
  exact fun text _ => inlineCell_gives shared text

theorem gives_shared {sheet : HeaderSheet} (h : sheet.Refers table)
    (hsize : table.length ≤ greatestPlace + 1) :
    List.Forall₂ (Gives (table.map (·.content true))) (sheet.places.map sharedCell)
      (sheet.texts.map (·.content true)) := by
  rw [List.forall₂_map_left_iff, List.forall₂_map_right_iff]
  refine h.imp fun place text hplace => ?_
  have hlt : place < table.length := (List.getElem?_eq_some_iff.mp hplace).1
  exact sharedCell_gives (by rw [List.getElem?_map, hplace]; rfl) (by omega)

theorem HeaderSheet.headers_eq (sheet : HeaderSheet) (counted : Bool) :
    (sheet.texts.map (·.content counted)).filterMap header? = sheet.headers counted :=
  List.filterMap_map ..

variable {cells : HeaderSheet → List (List Char)} {extra : List (String × List Char)}

theorem writtenSheets_names (cells : HeaderSheet → List (List Char)) (sheets : List HeaderSheet) :
    (writtenSheets cells sheets).map (·.1) = sheets.map (·.part) :=
  List.map_map ..

theorem Archive.Lists.notMem (h : a.Lists sheets) {name : String}
    (hname : name ∈ [sheetListPart, relationsPart, sharedTextPart]) :
    name ∉ (writtenSheets cells sheets).map (·.1) := by
  rw [writtenSheets_names]
  intro hmem
  obtain ⟨sheet, hsheet, rfl⟩ := List.mem_map.mp hmem
  exact h.apart sheet hsheet hname

/-- A part with shared texts is none of the sheets' parts. -/
theorem Archive.Lists.nodup (h : a.Lists sheets) (hnodup : (extra.map (·.1)).Nodup)
    (hextra : ∀ part ∈ extra, part.1 = sharedTextPart) :
    ((extra ++ writtenSheets cells sheets).map (·.1)).Nodup := by
  rw [List.map_append, List.nodup_append]
  refine ⟨hnodup, writtenSheets_names cells sheets ▸ h.distinct, ?_⟩
  rintro _ hmem _ hmem' rfl
  obtain ⟨part, hpart, rfl⟩ := List.mem_map.mp hmem
  rw [hextra part hpart] at hmem'
  exact h.notMem (by decide) hmem'

/-- The headers of the workbook with given cells, and perhaps a part with shared texts. -/
theorem headers_of_cells (h : a.Lists sheets) (hnodup : (extra.map (·.1)).Nodup)
    (hextra : ∀ part ∈ extra, part.1 = sharedTextPart) {shared : List Event} {counted : Bool}
    (hshared : (a.withParts (extra ++ writtenSheets cells sheets)).eventsOf sharedTextPart =
      .ok shared)
    (hcells : ∀ sheet ∈ sheets, List.Forall₂ (Gives (sharedTexts shared)) (cells sheet)
      (sheet.texts.map (·.content counted))) :
    (a.withParts (extra ++ writtenSheets cells sheets)).headers =
      .ok (Dict.ofList (sheets.map fun sheet => (sheet.name, sheet.headers counted))) := by
  have hother : ∀ name ∈ [sheetListPart, relationsPart],
      name ∉ (extra ++ writtenSheets cells sheets).map (·.1) := by
    intro name hname hmem
    rw [List.map_append, List.mem_append] at hmem
    rcases hmem with hmem | hmem
    · obtain ⟨part, hpart, rfl⟩ := List.mem_map.mp hmem
      rw [hextra part hpart] at hname
      exact absurd hname (by decide)
    · have hreserved : [sheetListPart, relationsPart] ⊆
          [sheetListPart, relationsPart, sharedTextPart] := by
        simp
      exact h.notMem (hreserved hname) hmem
  refine Archive.headers_of_sheets ?_ hshared fun sheet hsheet => ?_
  · rw [Archive.sheetParts_withParts (hother _ (by simp)) (hother _ (by simp)), h.listed]
  · have hmem : (sheet.part, sheetPart (cells sheet) sheet.rest) ∈
        extra ++ writtenSheets cells sheets :=
      List.mem_append_right _ (List.mem_map_of_mem hsheet)
    have hrow := firstRow_sheetPart (hcells sheet hsheet) sheet.rest
    have hmarkup := Archive.markup?_withParts (a := a) (h.nodup hnodup hextra) hmem
    rw [← sheet.headers_eq, Archive.headersOf, hmarkup]
    exact congrArg (Except.mapError WorkbookFault.malformed) hrow

/-- The headers of the workbook whose cells hold their texts. -/
theorem headers_inlined (h : a.Lists sheets) : (a.inlined sheets).headers =
    .ok (Dict.ofList (sheets.map fun sheet => (sheet.name, sheet.headers false))) := by
  obtain ⟨shared, hshared⟩ := h.shared
  have htexts : (a.inlined sheets).eventsOf sharedTextPart = .ok shared := by
    rw [Archive.eventsOf, Archive.inlined, Archive.markup?_withParts_of_notMem (h.notMem (by simp))]
    exact hshared
  exact @headers_of_cells a sheets _ [] h List.nodup_nil nofun shared false htexts
    fun sheet _ => gives_inline _ sheet

/-- The headers of the workbook whose cells refer to shared texts. -/
theorem headers_shared (h : a.Lists sheets) (hrefers : ∀ sheet ∈ sheets, sheet.Refers table)
    (hsize : table.length ≤ greatestPlace + 1) : (a.shared table sheets).headers =
    .ok (Dict.ofList (sheets.map fun sheet => (sheet.name, sheet.headers true))) := by
  obtain ⟨events, hread, htable⟩ := sharedTexts_textPart table
  let extra := [(sharedTextPart, textPart table)]
  have hnodup : (extra.map (·.1)).Nodup := List.nodup_singleton _
  have hextra : ∀ part ∈ extra, part.1 = sharedTextPart := List.forall_mem_singleton.mpr rfl
  have hmarkup : (a.shared table sheets).markup? sharedTextPart =
      .ok (some (Markup.read (textPart table))) :=
    Archive.markup?_withParts (h.nodup hnodup hextra) (List.mem_cons_self ..)
  have htexts : (a.shared table sheets).eventsOf sharedTextPart = .ok events := by
    rw [Archive.eventsOf, hmarkup, hread]
    rfl
  refine headers_of_cells h hnodup hextra htexts fun sheet hsheet => ?_
  rw [htable]
  exact gives_shared (hrefers sheet hsheet) hsize

/-- Under distinct names the headers of two workbooks are the same if those of every sheet
are. -/
theorem headers_eq_iff (hnames : (sheets.map (·.name)).Nodup) :
    Dict.ofList (sheets.map fun sheet => (sheet.name, sheet.headers false)) =
        Dict.ofList (sheets.map fun sheet => (sheet.name, sheet.headers true)) ↔
      ∀ sheet ∈ sheets, sheet.headers false = sheet.headers true := by
  have hget : ∀ counted, ∀ sheet ∈ sheets,
      (Dict.ofList (sheets.map fun sheet => (sheet.name, sheet.headers counted))).get?
        sheet.name = some (sheet.headers counted) := by
    intro counted sheet hsheet
    have hkeys :
        ((sheets.map fun sheet => (sheet.name, sheet.headers counted)).map (·.1)).Nodup := by
      rw [List.map_map]
      exact hnames
    rw [Dict.get?_ofList hkeys]
    exact Dict.find_of_mem hkeys (List.mem_map.mpr ⟨sheet, hsheet, rfl⟩)
  constructor
  · intro heq sheet hsheet
    have hsame := (hget false sheet hsheet).symm.trans (heq ▸ hget true sheet hsheet)
    exact Option.some.inj hsame
  · intro h
    exact congrArg Dict.ofList (List.map_congr_left fun sheet hsheet => by rw [h sheet hsheet])

/-- What the two workbooks give. Cells that hold their texts lose what stands in verbatim
sections, shared texts keep it, and the headers are the same as long as that makes no
difference to any sheet; without such sections it makes none. -/
theorem headers_inlined_shared (h : a.Lists sheets) (hnames : (sheets.map (·.name)).Nodup)
    (hrefers : ∀ sheet ∈ sheets, sheet.Refers table)
    (hsize : table.length ≤ greatestPlace + 1) :
    (a.inlined sheets).headers =
        .ok (Dict.ofList (sheets.map fun sheet => (sheet.name, sheet.headers false))) ∧
      (a.shared table sheets).headers =
        .ok (Dict.ofList (sheets.map fun sheet => (sheet.name, sheet.headers true))) ∧
      ((a.inlined sheets).headers = (a.shared table sheets).headers ↔
        ∀ sheet ∈ sheets, sheet.headers false = sheet.headers true) ∧
      ((∀ sheet ∈ sheets, ∀ text ∈ sheet.texts, text.VerbatimFree) →
        (a.inlined sheets).headers = (a.shared table sheets).headers) := by
  have hinlined := headers_inlined h
  have hshared := headers_shared h hrefers hsize
  have hiff : (a.inlined sheets).headers = (a.shared table sheets).headers ↔
      ∀ sheet ∈ sheets, sheet.headers false = sheet.headers true := by
    rw [hinlined, hshared, Except.ok.injEq]
    exact headers_eq_iff hnames
  refine ⟨hinlined, hshared, hiff, fun hfree => hiff.mpr fun sheet hsheet => ?_⟩
  exact List.filterMap_congr fun text htext => by
    rw [(hfree sheet hsheet text htext).content_eq]

def oneSheet : Archive :=
  ⟨[(sheetListPart, Text.Utf8.encode (element "sheets" "<sheet name=\"S\"/>".toList))]⟩

theorem oneSheet_lists {sheet : HeaderSheet} (hname : sheet.name = "S")
    (hpart : sheet.part = "xl/worksheets/sheet1.xml") : oneSheet.Lists [sheet] := by
  have hread : (Markup.read (element "sheets" "<sheet name=\"S\"/>".toList)).fault = none ∧
      listedSheets (Markup.read (element "sheets" "<sheet name=\"S\"/>".toList)).events =
        [⟨"S", none⟩] := by
    decide +kernel
  have hlist : oneSheet.markup? sheetListPart =
      .ok (some (Markup.read (element "sheets" "<sheet name=\"S\"/>".toList))) := by
    simp [oneSheet, Archive.markup?, Archive.entry?]
  have hmissing : ∀ part, part ≠ sheetListPart → oneSheet.eventsOf part = .ok [] := by
    intro part hpart
    simp [oneSheet, Archive.eventsOf, Archive.markup?, Archive.entry?, hpart.symm]
    rfl
  have hevents : Archive.events (Markup.read (element "sheets" "<sheet name=\"S\"/>".toList)) =
      .ok (Markup.read (element "sheets" "<sheet name=\"S\"/>".toList)).events := by
    rw [Archive.events, hread.1]
  refine ⟨?_, ⟨[], hmissing _ (by decide)⟩, List.nodup_singleton _, ?_⟩
  · rw [List.map_singleton, hname, hpart]
    exact Except.bind_eq_ok.mpr ⟨_, hlist, Except.bind_eq_ok.mpr ⟨_, hevents,
      Except.bind_eq_ok.mpr ⟨_, hmissing _ (by decide), by rw [hread.2]; rfl⟩⟩⟩
  · rw [List.forall_mem_singleton, hpart]
    decide

def twoHeaders : HeaderSheet where
  name := "S"
  part := "xl/worksheets/sheet1.xml"
  texts := [.whole [.verbatim "due".toList (by decide)],
    .inRuns [[.text "am".toList (by simp)],
      [.comment "a run".toList (by decide), .text "ount".toList (by simp)]]]
  places := [0, 1]
  rest := []

theorem twoHeaders_refers : twoHeaders.Refers twoHeaders.texts :=
  .cons rfl (.cons rfl .nil)

theorem twoHeaders_headers : twoHeaders.headers false = ["amount"] ∧
    twoHeaders.headers true = ["due", "amount"] := by
  decide +kernel

/-- The header in the verbatim section is missing where the cells hold their texts. -/
theorem headers_inlined_shared_verbatim :
    (oneSheet.inlined [twoHeaders]).headers = .ok (Dict.ofList [("S", ["amount"])]) ∧
      (oneSheet.shared twoHeaders.texts [twoHeaders]).headers =
        .ok (Dict.ofList [("S", ["due", "amount"])]) := by
  have hlists : oneSheet.Lists [twoHeaders] := oneSheet_lists rfl rfl
  have h := headers_inlined_shared hlists (List.nodup_singleton _)
    (List.forall_mem_singleton.mpr twoHeaders_refers) (by decide)
  rw [List.map_singleton, List.map_singleton, twoHeaders_headers.1, twoHeaders_headers.2] at h
  exact ⟨h.1, h.2.1⟩

/-- Two workbooks with the same texts and different headers. -/
theorem exists_headers_differ : ∃ (a : Archive) (sheets : List HeaderSheet)
    (table : List HeaderText), a.Lists sheets ∧ (∀ sheet ∈ sheets, sheet.Refers table) ∧
      (a.inlined sheets).headers ≠ (a.shared table sheets).headers := by
  have hlists : oneSheet.Lists [twoHeaders] := oneSheet_lists rfl rfl
  have hrefers := List.forall_mem_singleton.mpr twoHeaders_refers
  refine ⟨oneSheet, [twoHeaders], twoHeaders.texts, hlists, hrefers, ?_⟩
  rw [headers_inlined hlists, headers_shared hlists hrefers (by decide), List.map_singleton,
    List.map_singleton, twoHeaders_headers.1, twoHeaders_headers.2]
  decide

end Collate.Workbook
