import Collate.Proofs.Workbook.HeaderTexts
import Collate.Proofs.Workbook.Nesting

/-!
Which part of a sheet its headers come from. The reader passes over everything up to the
first row and stops at the end tag of a row, so a first row with an end tag settles the
headers. A first row written as an empty tag is passed over like everything before it,
and the headers are those of a row behind it.
-/

namespace Collate.Workbook

open Scanner (Scans scanned)

/-- What is met in a document up to the end of its first row: what comes before the row, its tag,
and what it holds, if it is not written as an empty tag. -/
structure RowElement where
  before : List Event
  tag : Tag
  inner? : Option (List Event)
  unrowed : ∀ e ∈ before, e.begins "row" = false
  named : isNamed tag.name "row" = true
  nested : ∀ inner ∈ inner?, Nested tag.name inner

namespace RowElement

def events (row : RowElement) : List Event :=
  row.before ++ match row.inner? with
    | none => [.emptied row.tag]
    | some inner => .opened row.tag :: inner ++ [.closed row.tag.name]

def Within (row : RowElement) : Prop :=
  ∃ name outer, row.before.foldlM Depth.step .before = some (.inside (name :: outer))

/-- The characters of a document that end with its first row. -/
def EndsAt (row : RowElement) (upTo : List Char) : Prop :=
  ∃ names, scanned upTo = ⟨.text [], names, row.events.reverse⟩

end RowElement

/-- Every document with a row has a first one, and its characters end somewhere. -/
theorem exists_endsAt {document : List Char} (hdoc : (Markup.read document).WellFormed)
    (hrow : ∃ e ∈ (Markup.read document).events, e.begins "row" = true) :
    ∃ (row : RowElement) (upTo rest : List Char), document = upTo ++ rest ∧ row.EndsAt upTo := by
  obtain ⟨e, before, more, hevents, he, hbefore⟩ : ∃ e before more,
      (Markup.read document).events = before ++ e :: more ∧ e.begins "row" = true ∧
        ∀ e ∈ before, e.begins "row" = false := by
    obtain ⟨first, hfirst⟩ := Option.isSome_iff_exists.mp (List.find?_isSome.mpr hrow)
    obtain ⟨hbegins, before, more, hsplit, hbefore⟩ := List.find?_eq_some_iff_append.mp hfirst
    exact ⟨first, before, more, hsplit, hbegins, fun e he => by simpa using hbefore e he⟩
  cases e with
  | emptied tag =>
    obtain ⟨upTo, rest, names, rfl, hupTo⟩ := Markup.exists_cut id hevents
    exact ⟨⟨before, tag, none, hbefore, he, nofun⟩, upTo, rest, rfl, names, hupTo⟩
  | opened tag =>
    have hnested := hdoc.nested
    rw [hevents, List.foldlM_append, Option.bind_eq_bind, Option.bind_eq_some_iff] at hnested
    obtain ⟨d, -, hnested⟩ := hnested
    obtain ⟨next, hstep, hmore⟩ := foldlM_depth_cons hnested
    obtain ⟨outer, rfl⟩ := Depth.step_opened hstep
    obtain ⟨inner, more, rfl, hinner⟩ := @exists_closed more tag.name [] outer hmore
    have hclosed : (Markup.read document).events =
        (before ++ .opened tag :: inner) ++ .closed tag.name :: more := by
      rw [hevents, List.append_assoc, List.cons_append]
    obtain ⟨upTo, rest, names, rfl, hupTo⟩ := Markup.exists_cut id hclosed
    let row : RowElement := ⟨before, tag, some inner, hbefore, he, by rintro _ ⟨⟩; exact hinner⟩
    refine ⟨row, upTo, rest, rfl, names, hupTo.trans ?_⟩
    simp [row, RowElement.events]
  | _ => cases he

variable {shared : List (List Char)} {events : List Event} {row : RowElement}

/-- Before the first row nothing is taken. -/
theorem foldl_unrowed (shared : List (List Char)) (h : ∀ e ∈ events, e.begins "row" = false) :
    events.foldl (RowReader.step shared) .start = .start := by
  induction events with
  | nil => rfl
  | cons e rest ih =>
    obtain ⟨he, hrest⟩ := List.forall_mem_cons.mp h
    have hstep : RowReader.step shared .start e = .start := by
      cases e with
      | opened tag =>
        have hrow : isNamed tag.name "row" = false := he
        simp [RowReader.step, RowReader.start, hrow]
      | _ => simp [RowReader.step, RowReader.start]
    rw [List.foldl_cons, hstep, ih hrest]

/-- Behind the outermost element there is nothing to take. -/
theorem foldl_outside (shared : List (List Char)) {last : Depth}
    (h : events.foldlM Depth.step (.inside []) = some last) :
    events.foldl (RowReader.step shared) .start = .start := by
  induction events with
  | nil => rfl
  | cons e rest ih =>
    obtain ⟨next, hstep, hrest⟩ := foldlM_depth_cons h
    cases e with
    | text chars =>
      simp only [Depth.step, Option.ite_none_right_eq_some, Option.some.injEq] at hstep
      obtain ⟨-, rfl⟩ := hstep
      exact ih hrest
    | _ => cases hstep

/-- In a row the reader stays there. -/
theorem foldl_inRow (shared : List (List Char)) (events : List Event) {r : RowReader}
    (h : r.inRow = true) : (events.foldl (RowReader.step shared) r).inRow = true := by
  induction events generalizing r with
  | nil => exact h
  | cons e rest ih =>
    have hstep : (RowReader.step shared r e).inRow = true := by
      unfold RowReader.step RowReader.endCell
      repeat' split
      all_goals first | exact h | rfl
    exact ih hstep

/-- The end tag of a row ends the row that the reader is in. -/
theorem step_closed_row (shared : List (List Char)) {r : RowReader} (h : r.inRow = true)
    {name : List Char} (hname : isNamed name "row" = true) :
    (RowReader.step shared r (.closed name)).ended = true := by
  unfold RowReader.step
  split
  · assumption
  · simp [hname, h]

/-- Headers are added where cells end. -/
theorem foldl_done (shared : List (List Char)) (r : RowReader)
    (h : ∀ found, .closed found ∈ events → isNamed found "c" = false) :
    (events.foldl (RowReader.step shared) r).done = r.done := by
  induction events generalizing r with
  | nil => rfl
  | cons e rest ih =>
    have hstep : (RowReader.step shared r e).done = r.done := by
      cases e with
      | closed found =>
        have hc : isNamed found "c" = false := h found List.mem_cons_self
        simp only [RowReader.step, hc, Bool.false_and, Bool.false_eq_true, if_false]
        repeat' split
        all_goals rfl
      | _ =>
        simp only [RowReader.step]
        repeat' split
        all_goals rfl
    rw [List.foldl_cons, ih _ fun found hfound => h found (List.mem_cons_of_mem _ hfound), hstep]

namespace RowElement

theorem events_emptied (h : row.inner? = none) :
    row.events = row.before ++ [.emptied row.tag] := by
  rw [events, h]

theorem events_closed {inner : List Event} (h : row.inner? = some inner) :
    row.events = row.before ++ .opened row.tag :: (inner ++ [.closed row.tag.name]) := by
  rw [events, h]
  rfl

theorem events_ne_nil (row : RowElement) : row.events ≠ [] := by
  unfold events
  split <;> simp

/-- A document goes on behind its first row, whatever was met up to there. -/
theorem EndsAt.read {upTo : List Char} (h : row.EndsAt upTo) : ∃ names, ∀ rest,
    Markup.read (upTo ++ rest) =
      (rest.foldl Scanner.step ⟨.text [], names, []⟩).markup.behind row.events := by
  obtain ⟨names, hscanned⟩ := h
  have hne : upTo ≠ [] := by
    rintro rfl
    have hmet : [] = row.events.reverse := congrArg Scanner.met hscanned
    exact row.events_ne_nil (List.reverse_eq_nil_iff.mp hmet.symm)
  exact ⟨names, fun rest => Markup.read_append hne hscanned⟩

theorem not_cell (row : RowElement) : isNamed row.tag.name "c" = false := by
  have hlocal : localName row.tag.name = "row".toList := beq_iff_eq.mp row.named
  simp [isNamed, hlocal]

/-- A row with an end tag is where the reader stops, and without cells it has no headers. -/
theorem foldl_events {inner : List Event} (h : row.inner? = some inner)
    (shared : List (List Char)) :
    (row.events.foldl (RowReader.step shared) .start).ended = true ∧
      ((∀ e ∈ inner, e.begins "c" = false) →
        (row.events.foldl (RowReader.step shared) .start).done = []) := by
  have hopen : RowReader.step shared .start (.opened row.tag) = .atCell none [] [] := by
    simp [RowReader.step, RowReader.start, RowReader.atCell, row.named]
  have hread : row.events.foldl (RowReader.step shared) .start =
      (inner ++ [Event.closed row.tag.name]).foldl (RowReader.step shared)
        (.atCell none [] []) := by
    rw [events_closed h, List.foldl_append, foldl_unrowed shared row.unrowed, List.foldl_cons,
      hopen]
  rw [hread]
  constructor
  · rw [List.foldl_append, List.foldl_cons, List.foldl_nil]
    exact step_closed_row shared (foldl_inRow shared inner rfl) row.named
  · intro hcells
    have hinner := closed_of_nested (row.nested inner h)
      (List.forall_mem_singleton.mpr row.not_cell) hcells
    refine (foldl_done shared _ fun found hmem => ?_).trans rfl
    rcases List.mem_append.mp hmem with hmem | hmem
    · exact hinner found hmem
    · obtain ⟨⟩ := List.mem_singleton.mp hmem
      exact row.not_cell

/-- A row that is an empty tag is passed over. -/
theorem foldl_events_emptied (h : row.inner? = none) (shared : List (List Char)) :
    row.events.foldl (RowReader.step shared) .start = .start := by
  rw [events_emptied h, List.foldl_append, foldl_unrowed shared row.unrowed]
  rfl

end RowElement

/-! What comes behind the first row. -/

def letter (c : Char) (h : c ≠ '<' ∧ c ≠ '&') : HeaderText :=
  .whole [.text [c] (List.forall_mem_singleton.mpr h)]

/-- A row with a letter may stand anywhere inside other elements. -/
theorem letterRow_scans {c : Char} (h : c ≠ '<' ∧ c ≠ '&') : ∃ events,
    Scans [] (element "row" (inlineCell (letter c h))) events [] ∧ ∀ name outer,
      events.foldlM Depth.step (.inside (name :: outer)) = some (.inside (name :: outer)) := by
  have hc : Scans [] [c] [] [c] := Scanner.scans_text (List.forall_mem_singleton.mpr h)
  have ht : Scans [] (element "t" [c]) _ [] := hc.element rfl
  have his : Scans [] (element "is" (element "t" [c])) _ [] := ht.element rfl
  have htag : Scanner.isTag "c t=\"inlineStr\"".toList = true := by decide
  have hcell : Scans [] (inlineCell (letter c h)) _ [] := his.element htag
  have hrow : Scans [] (element "row" (inlineCell (letter c h))) _ [] := hcell.element rfl
  simp only [flushed, List.nil_append, List.append_nil] at hrow
  refine ⟨_, hrow, fun name outer => ?_⟩
  simp [Depth.step]

namespace RowElement

variable {upTo rest : List Char}

/-- A row with an end tag settles the headers, whatever comes behind it. -/
theorem EndsAt.settled (h : row.EndsAt upTo) {inner : List Event} (hinner : row.inner? = some inner)
    (shared : List (List Char)) : ∃ headers,
      (∀ other, firstRow shared (Markup.read (upTo ++ other)) = .ok headers) ∧
      ((∀ e ∈ inner, e.begins "c" = false) → headers = []) := by
  obtain ⟨names, hread⟩ := h.read
  obtain ⟨hended, hcells⟩ := foldl_events hinner shared
  refine ⟨_, fun other => ?_, fun hnone => List.reverse_eq_nil_iff.mpr (hcells hnone)⟩
  rw [hread]
  exact firstRow_of_ended rfl hended _

/-- A first row that is an empty tag leaves the headers to a row behind it. -/
theorem EndsAt.emptied (h : row.EndsAt upTo) (hinner : row.inner? = none)
    {shared cells texts : List (List Char)} (hcells : List.Forall₂ (Gives shared) cells texts)
    (other : List Char) :
    firstRow shared (Markup.read (upTo ++ (element "row" cells.flatten ++ other))) =
      .ok (texts.filterMap header?) := by
  obtain ⟨names, hread⟩ := h.read
  obtain ⟨events, value, hscans, hevents⟩ := foldl_row hcells
  have hended : (row.events ++ events).foldl (RowReader.step shared) .start =
      ⟨true, true, none, false, value, (texts.filterMap header?).reverse⟩ := by
    rw [List.foldl_append, foldl_events_emptied hinner, hevents]
  rw [hread, hscans.markup_append, Markup.behind_behind, firstRow_of_ended hended rfl,
    List.reverse_reverse]

/-- An empty tag that is the whole document has nothing but blanks behind it. -/
theorem EndsAt.outermost (h : row.EndsAt upTo) (hinner : row.inner? = none)
    (hwithin : ¬ row.Within) (hdoc : (Markup.read (upTo ++ rest)).WellFormed)
    (shared : List (List Char)) : firstRow shared (Markup.read (upTo ++ rest)) = .ok [] := by
  obtain ⟨names, hread⟩ := h.read
  rw [hread] at hdoc ⊢
  generalize (rest.foldl Scanner.step ⟨.text [], names, []⟩).markup = m at hdoc ⊢
  have hfault : m.fault = none := hdoc.faultless
  have hnested := hdoc.nested
  rw [Markup.behind, events_emptied hinner, List.append_assoc, List.singleton_append,
    List.foldlM_append, Option.bind_eq_bind, Option.bind_eq_some_iff] at hnested
  obtain ⟨d, hbefore, hnested⟩ := hnested
  obtain ⟨next, hstep, hmore⟩ := foldlM_depth_cons hnested
  have hnext : next = .inside [] := by
    cases d with
    | before => exact (Option.some.inj hstep).symm
    | inside names =>
      cases names with
      | nil => cases hstep
      | cons name outer => exact absurd ⟨name, outer, hbefore⟩ hwithin
  subst hnext
  rw [firstRow, Markup.behind, List.foldl_append, foldl_events_emptied hinner,
    foldl_outside shared hmore, hfault]
  rfl

/-- Behind a first row that is an empty tag there may be a row with any letter. -/
theorem EndsAt.letterRow (h : row.EndsAt upTo) (hinner : row.inner? = none) (hwithin : row.Within)
    (hdoc : (Markup.read (upTo ++ rest)).WellFormed) {c : Char} (hc : c ≠ '<' ∧ c ≠ '&') :
    (Markup.read (upTo ++ (element "row" (inlineCell (letter c hc)) ++ rest))).WellFormed := by
  obtain ⟨names, hread⟩ := h.read
  obtain ⟨events, hscans, hnested⟩ := letterRow_scans hc
  obtain ⟨name, outer, hbefore⟩ := hwithin
  have hupTo : row.events.foldlM Depth.step .before = some (.inside (name :: outer)) := by
    rw [events_emptied hinner, List.foldlM_append, hbefore]
    rfl
  rw [hread] at hdoc
  rw [hread, hscans.markup_append, Markup.behind_behind]
  have hrest := hdoc.nested
  refine ⟨hdoc.faultless, ?_⟩
  simp only [Markup.behind, List.foldlM_append, hupTo, hnested, Option.bind_eq_bind,
    Option.bind_some] at hrest ⊢
  exact hrest

end RowElement

/-- What the headers of a sheet depend on. A first row with an end tag settles them, whatever
comes behind it, and without cells there are none; a first row that is an empty tag is passed
over, and the headers are those of a row behind it. So what comes behind the first row makes no
difference exactly if that row has an end tag or is all of the document. -/
theorem firstRow_determined_iff {row : RowElement} {upTo rest : List Char} (h : row.EndsAt upTo)
    (hdoc : (Markup.read (upTo ++ rest)).WellFormed) (shared : List (List Char)) :
    ((∀ other, (Markup.read (upTo ++ other)).WellFormed →
        firstRow shared (Markup.read (upTo ++ other)) =
          firstRow shared (Markup.read (upTo ++ rest))) ↔
      row.inner?.isSome = true ∨ ¬ row.Within) ∧
    (∀ inner, row.inner? = some inner → ∃ headers,
      (∀ other, firstRow shared (Markup.read (upTo ++ other)) = .ok headers) ∧
      ((∀ e ∈ inner, e.begins "c" = false) → headers = [])) ∧
    (row.inner? = none → ∀ cells texts, List.Forall₂ (Gives shared) cells texts → ∀ other,
      firstRow shared (Markup.read (upTo ++ (element "row" cells.flatten ++ other))) =
        .ok (texts.filterMap header?)) := by
  refine ⟨⟨fun hsame => ?_, fun hrow other hother => ?_⟩,
    fun inner hinner => h.settled hinner shared,
    fun hinner cells texts hcells => h.emptied hinner hcells⟩
  · by_contra hrow
    simp only [not_or, not_not, Option.not_isSome_iff_eq_none] at hrow
    obtain ⟨hinner, hwithin⟩ := hrow
    -- two documents that differ in the letter of a second row
    have hheaders : ∀ c hc, firstRow shared (Markup.read (upTo ++ rest)) =
        .ok ([(letter c hc).content false].filterMap header?) := by
      intro c hc
      rw [← hsame _ (h.letterRow hinner hwithin hdoc hc)]
      have hgives := List.Forall₂.cons (inlineCell_gives shared (letter c hc)) .nil
      have hrow := h.emptied hinner hgives rest
      rwa [List.flatten_singleton] at hrow
    have hab := (hheaders 'a' (by decide)).symm.trans (hheaders 'b' (by decide))
    exact absurd hab (by decide)
  · cases hinner : row.inner? with
    | none =>
      have hwithin : ¬ row.Within := hrow.resolve_left (by simp [hinner])
      rw [h.outermost hinner hwithin hother, h.outermost hinner hwithin hdoc]
    | some inner =>
      obtain ⟨headers, hheaders, -⟩ := h.settled hinner shared
      rw [hheaders, hheaders]

def emptyRow : RowElement where
  before := [.opened (Tag.ofContent "worksheet".toList), .opened (Tag.ofContent "sheetData".toList)]
  tag := Tag.ofContent "row r=\"1\"".toList
  inner? := none
  unrowed := by decide
  named := by decide
  nested := nofun

def upToEmptyRow : List Char := "<worksheet><sheetData><row r=\"1\"/>".toList

def noMoreRows : List Char := "</sheetData></worksheet>".toList

def oneMoreRow : List Char :=
  "<row r=\"2\"><c><v>2024</v></c></row></sheetData></worksheet>".toList

theorem emptyRow_endsAt : emptyRow.EndsAt upToEmptyRow :=
  ⟨["sheetData".toList, "worksheet".toList], by decide +kernel⟩

theorem noMoreRows_wellFormed : (Markup.read (upToEmptyRow ++ noMoreRows)).WellFormed :=
  ⟨by decide +kernel, by decide +kernel⟩

/-- Behind an empty tag the next row is read. -/
theorem firstRow_determined_iff_emptied : emptyRow.EndsAt upToEmptyRow ∧
    (Markup.read (upToEmptyRow ++ noMoreRows)).WellFormed ∧
    ¬ (∀ other, (Markup.read (upToEmptyRow ++ other)).WellFormed →
      firstRow [] (Markup.read (upToEmptyRow ++ other)) =
        firstRow [] (Markup.read (upToEmptyRow ++ noMoreRows))) := by
  refine ⟨emptyRow_endsAt, noMoreRows_wellFormed, ?_⟩
  rw [(firstRow_determined_iff emptyRow_endsAt noMoreRows_wellFormed []).1]
  rintro (hclosed | hout)
  · cases hclosed
  · exact hout ⟨"sheetData".toList, ["worksheet".toList], rfl⟩

/-- A first row without cells, and headers that come from behind it. -/
theorem exists_headers_behind : ∃ (row : RowElement) (upTo rest other : List Char),
    row.EndsAt upTo ∧ (Markup.read (upTo ++ rest)).WellFormed ∧
      (Markup.read (upTo ++ other)).WellFormed ∧
      firstRow [] (Markup.read (upTo ++ rest)) = .ok [] ∧
      firstRow [] (Markup.read (upTo ++ other)) = .ok ["2024"] := by
  refine ⟨emptyRow, upToEmptyRow, noMoreRows, oneMoreRow, emptyRow_endsAt, noMoreRows_wellFormed,
    ⟨?_, ?_⟩, ?_, ?_⟩
  all_goals decide +kernel

end Collate.Workbook
