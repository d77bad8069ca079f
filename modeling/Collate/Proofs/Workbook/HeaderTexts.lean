import Collate.Proofs.Distinct
import Collate.Proofs.Text.Utf8
import Collate.Proofs.Workbook.Markup
import Collate.Workbook.Headers

/-!
Headers that stand in the cells themselves, and headers that the cells refer to. A text is
written in one piece or in runs, each a stretch of character data. The reader of shared
texts takes all of it; the reader of a row leaves out what stands in verbatim sections.
Both are followed over the events of the same written text.
-/

namespace Collate.Workbook

open Scanner (Scans)

/-- The text of a header as it is written. -/
inductive HeaderText where
  | whole (pieces : List Piece)
  | inRuns (runs : List (List Piece))

namespace HeaderText

def write : HeaderText → List Char
  | .whole pieces => element "t" (pieces.flatMap Piece.write)
  | .inRuns runs => runs.flatMap fun run => element "r" (element "t" (run.flatMap Piece.write))

def pieces : HeaderText → List Piece
  | .whole pieces => pieces
  | .inRuns runs => runs.flatten

/-- What a text stands for. Verbatim sections count or do not. -/
def content (text : HeaderText) (counted : Bool) : List Char :=
  text.pieces.flatMap (Piece.content counted)

/-- No character data is in a verbatim section. -/
def VerbatimFree (text : HeaderText) : Prop :=
  ∀ piece ∈ text.pieces, piece.isVerbatim = false

theorem VerbatimFree.content_eq {text : HeaderText} (h : text.VerbatimFree) :
    text.content false = text.content true := by
  have hpiece : ∀ piece ∈ text.pieces, piece.content false = piece.content true := by
    intro piece hmem
    have hfree := h piece hmem
    cases piece with
    | verbatim => cases hfree
    | _ => rfl
  exact List.flatMap_congr hpiece

end HeaderText

/-! What the two readers take from the events of a text. -/

def RowReader.atCell (kind? : Option String) (value : List Char) (done : List String) : RowReader :=
  ⟨true, false, kind?, false, value, done⟩

def SharedReader.atItem (current : List Char) (done : List (List Char)) : SharedReader :=
  ⟨true, false, current, done⟩

/-- The events add the content to the cell or the shared text under way. -/
structure Carries (events : List Event) (content : Bool → List Char) : Prop where
  row : ∀ shared kind? value done,
    events.foldl (RowReader.step shared) (.atCell kind? value done) =
      .atCell kind? (value ++ content false) done
  shared : ∀ current done, events.foldl SharedReader.step (.atItem current done) =
    .atItem (current ++ content true) done

variable {events others : List Event} {content more : Bool → List Char}

theorem Carries.nil : Carries [] fun _ => [] :=
  ⟨fun _ _ _ _ => by simp, fun _ _ => by simp⟩

theorem Carries.append (h : Carries events content) (h' : Carries others more) :
    Carries (events ++ others) fun counted => content counted ++ more counted where
  row shared kind? value done := by
    rw [List.foldl_append, h.row, h'.row, List.append_assoc]
  shared current done := by
    rw [List.foldl_append, h.shared, h'.shared, List.append_assoc]

/-- Tags around runs are passed over. -/
theorem Carries.within (h : Carries events content) {tag : Tag}
    (htag : ∀ name ∈ ["row", "c", "v", "t", "si"], isNamed tag.name name = false) :
    Carries (.opened tag :: events ++ [.closed tag.name]) content := by
  simp only [List.forall_mem_cons] at htag
  obtain ⟨hrow, hc, hv, ht, hsi, -⟩ := htag
  constructor
  · intro shared kind? value done
    have hopen : RowReader.step shared (.atCell kind? value done) (.opened tag) =
        .atCell kind? value done := by
      simp [RowReader.step, hrow, hc, hv, ht]
    have hclose : RowReader.step shared (.atCell kind? (value ++ content false) done)
        (.closed tag.name) = .atCell kind? (value ++ content false) done := by
      simp [RowReader.step, hrow, hc, hv, ht]
    rw [List.foldl_append, List.foldl_cons, List.foldl_nil, List.foldl_cons, hopen, h.row, hclose]
  · intro current done
    have hopen : SharedReader.step (.atItem current done) (.opened tag) =
        .atItem current done := by
      simp [SharedReader.step, hsi, ht]
    have hclose : SharedReader.step (.atItem (current ++ content true) done) (.closed tag.name) =
        .atItem (current ++ content true) done := by
      simp [SharedReader.step, hsi, ht]
    rw [List.foldl_append, List.foldl_cons, List.foldl_nil, List.foldl_cons, hopen, h.shared,
      hclose]

/-- In a value of a row verbatim sections do not count. -/
theorem foldl_row_data (h : ∀ e ∈ events, e.IsData) (shared : List (List Char))
    (kind? : Option String) (value : List Char) (done : List String) :
    events.foldl (RowReader.step shared) ⟨true, false, kind?, true, value, done⟩ =
      ⟨true, false, kind?, true, value ++ events.flatMap (Event.content false), done⟩ := by
  induction events generalizing value with
  | nil => simp
  | cons e rest ih =>
    obtain ⟨he, hrest⟩ := List.forall_mem_cons.mp h
    have hstep : RowReader.step shared ⟨true, false, kind?, true, value, done⟩ e =
        ⟨true, false, kind?, true, value ++ e.content false, done⟩ := by
      cases e with
      | text chars => rfl
      | verbatim chars => simp [RowReader.step, Event.content]
      | _ => cases he
    rw [List.foldl_cons, hstep, ih hrest, List.flatMap_cons, List.append_assoc]

theorem foldl_shared_data (h : ∀ e ∈ events, e.IsData) (current : List Char)
    (done : List (List Char)) :
    events.foldl SharedReader.step ⟨true, true, current, done⟩ =
      ⟨true, true, current ++ events.flatMap (Event.content true), done⟩ := by
  induction events generalizing current with
  | nil => simp
  | cons e rest ih =>
    obtain ⟨he, hrest⟩ := List.forall_mem_cons.mp h
    have hstep : SharedReader.step ⟨true, true, current, done⟩ e =
        ⟨true, true, current ++ e.content true, done⟩ := by
      cases e with
      | text chars => rfl
      | verbatim chars => rfl
      | _ => cases he
    rw [List.foldl_cons, hstep, ih hrest, List.flatMap_cons, List.append_assoc]

/-- A value of a row adds its character data to the cell. -/
theorem foldl_row_value (h : ∀ e ∈ events, e.IsData) (shared : List (List Char)) {tag : Tag}
    (htag : tag.name = ['v'] ∨ tag.name = ['t']) (kind? : Option String) (value : List Char)
    (done : List String) :
    (Event.opened tag :: events ++ [Event.closed tag.name]).foldl (RowReader.step shared)
        (.atCell kind? value done) =
      .atCell kind? (value ++ events.flatMap (Event.content false)) done := by
  have hopen : RowReader.step shared (.atCell kind? value done) (.opened tag) =
      ⟨true, false, kind?, true, value, done⟩ := by
    rcases htag with h | h <;> simp only [RowReader.step, h] <;> rfl
  have hclose : ∀ value, RowReader.step shared ⟨true, false, kind?, true, value, done⟩
      (.closed tag.name) = .atCell kind? value done := by
    rcases htag with h | h <;> simp only [RowReader.step, h] <;> exact fun _ => rfl
  rw [List.foldl_append, List.foldl_cons, List.foldl_nil, List.foldl_cons, hopen,
    foldl_row_data h, hclose]

/-- A run adds its character data. -/
theorem Carries.run (h : ∀ e ∈ events, e.IsData) :
    Carries (.opened (Tag.ofContent "t".toList) :: events ++
      [.closed (Tag.ofContent "t".toList).name]) fun counted =>
        events.flatMap (Event.content counted) where
  row shared kind? value done := foldl_row_value h shared (.inr rfl) kind? value done
  shared current done := by
    have hopen : SharedReader.step (.atItem current done) (.opened (Tag.ofContent "t".toList)) =
        ⟨true, true, current, done⟩ := rfl
    rw [List.foldl_append, List.foldl_cons, List.foldl_nil, List.foldl_cons, hopen,
      foldl_shared_data h]
    rfl

theorem scans_run (pieces : List Piece) : ∃ events,
    Scans [] (element "t" (pieces.flatMap Piece.write)) events [] ∧
      Carries events fun counted => pieces.flatMap (Piece.content counted) := by
  obtain ⟨events, after, hscans, hdata, hcontent⟩ := Scanner.scans_pieces pieces []
  have hrun := Carries.run (List.forall_mem_append.mpr ⟨hdata, flushed_isData after⟩)
  refine ⟨_, hscans.element rfl, ?_⟩
  simp only [List.flatMap_append, flushed_content, hcontent, List.reverse_nil,
    List.nil_append] at hrun
  simpa [flushed] using hrun

/-- What is met in a text adds the content of the text. -/
theorem HeaderText.scans (text : HeaderText) : ∃ events,
    Scans [] text.write events [] ∧ Carries events text.content := by
  cases text with
  | whole pieces => exact scans_run pieces
  | inRuns runs =>
    induction runs with
    | nil => exact ⟨[], .nil [], .nil⟩
    | cons run rest ih =>
      obtain ⟨events, hscans, hcarries⟩ := scans_run run
      obtain ⟨others, hscans', hcarries'⟩ := ih
      have hrun : Carries (.opened (Tag.ofContent "r".toList) :: events ++
          [.closed (Tag.ofContent "r".toList).name]) _ := hcarries.within (by decide)
      refine ⟨_, (hscans.element rfl).append hscans', ?_⟩
      have hcontent : (inRuns (run :: rest)).content = fun counted =>
          run.flatMap (Piece.content counted) ++ (inRuns rest).content counted := by
        funext counted
        simp [content, pieces]
      rw [hcontent]
      simpa [flushed] using hrun.append hcarries'

/-! Cells. -/

def header? (text : List Char) : Option String :=
  match Text.trimChars text with
  | [] => none
  | trimmed => some (String.ofList trimmed)

def inlineCell (text : HeaderText) : List Char :=
  element "c t=\"inlineStr\"" (element "is" text.write)

def sharedCell (place : Nat) : List Char :=
  element "c t=\"s\"" (element "v" (Nat.toDigits 10 place))

/-- The cell gives the header of the text. -/
def Gives (shared : List (List Char)) (cell text : List Char) : Prop :=
  ∃ events, Scans [] cell events [] ∧ ∀ value done, ∃ value',
    events.foldl (RowReader.step shared) (.atCell none value done) =
      .atCell none value' ((header? text).toList ++ done)

theorem endCell_atCell (shared : List (List Char)) (kind? : Option String) (value : List Char)
    (done : List String) :
    (RowReader.atCell kind? value done).endCell shared = .atCell none value
      ((header? ((RowReader.atCell kind? value done).cellText shared)).toList ++ done) := by
  rw [RowReader.endCell, header?]
  split <;> simp_all [RowReader.atCell]

/-- A cell gives the header of what its value stands for. -/
theorem gives_of_value {shared : List (List Char)} {tag : String} {kind : String}
    {inner value : List Char} (htag : Scanner.isTag tag.toList = true)
    (hname : (Tag.ofContent tag.toList).name = ['c'])
    (hkind : (Tag.ofContent tag.toList).attribute? "t" = some kind)
    (hscans : Scans [] inner events [])
    (hvalue : ∀ done, events.foldl (RowReader.step shared) (.atCell (some kind) [] done) =
      .atCell (some kind) value done) :
    Gives shared (element tag inner) ((RowReader.atCell (some kind) value []).cellText shared) := by
  refine ⟨_, hscans.element htag, fun before done => ⟨value, ?_⟩⟩
  have hopen : RowReader.step shared (.atCell none before done)
      (.opened (Tag.ofContent tag.toList)) = .atCell (some kind) [] done := by
    simp only [RowReader.step, hname, hkind]
    rfl
  have hclose : RowReader.step shared (.atCell (some kind) value done) (.closed ['c']) =
      (RowReader.atCell (some kind) value done).endCell shared := rfl
  simp only [flushed, List.nil_append, List.append_nil, List.cons_append, List.foldl_cons,
    List.foldl_append, List.foldl_nil, hopen, hvalue, hname, hclose, endCell_atCell]
  rfl

theorem inlineCell_gives (shared : List (List Char)) (text : HeaderText) :
    Gives shared (inlineCell text) (text.content false) := by
  obtain ⟨events, hscans, hcarries⟩ := text.scans
  have his : Carries (.opened (Tag.ofContent "is".toList) :: events ++
      [.closed (Tag.ofContent "is".toList).name]) _ := hcarries.within (by decide)
  have hinner : Scans [] (element "is" text.write) _ [] := hscans.element rfl
  simp only [flushed, List.nil_append, List.append_nil] at hinner
  have htag : Scanner.isTag "c t=\"inlineStr\"".toList = true := by decide
  have hname : (Tag.ofContent "c t=\"inlineStr\"".toList).name = ['c'] := by decide
  have hkind : (Tag.ofContent "c t=\"inlineStr\"".toList).attribute? "t" = some "inlineStr" := by
    decide
  have htext : (RowReader.atCell (some "inlineStr") (text.content false) []).cellText shared =
      text.content false := by
    simp [RowReader.cellText, RowReader.atCell]
  have hgives := gives_of_value htag hname hkind hinner fun done => his.row shared _ [] done
  rw [List.nil_append, htext] at hgives
  exact hgives

/-- A number is read from its digits. -/
theorem digits_spec (n : Nat) : (∀ c ∈ Nat.toDigits 10 n, c.isDigit = true) ∧
    (Nat.toDigits 10 n).foldl (fun n c => n * 10 + (c.toNat - 48)) 0 = n := by
  have hdigit : ∀ d < 10, (Nat.digitChar d).isDigit = true ∧ (Nat.digitChar d).toNat - 48 = d := by
    decide
  induction n using Nat.strongRecOn with
  | ind n ih =>
    by_cases hlast : n < 10
    · rw [Nat.toDigits_of_lt_base hlast]
      simp [hdigit n hlast]
    · obtain ⟨hall, hvalue⟩ := ih (n / 10) (by omega)
      have hlow := hdigit (n % 10) (Nat.mod_lt n (by decide))
      rw [Nat.toDigits_of_base_le (by decide) (by omega)]
      refine ⟨?_, ?_⟩
      · exact List.forall_mem_append.mpr ⟨hall, List.forall_mem_singleton.mpr hlow.1⟩
      · rw [List.foldl_append, hvalue, List.foldl_cons, List.foldl_nil, hlow.2]
        omega

theorem isBlank_digit {c : Char} (h : c.isDigit = true) : Text.isBlank c = false := by
  simp only [Char.isDigit, Bool.and_eq_true, decide_eq_true_eq] at h
  have hlow : 48 ≤ c.toNat := h.1
  have hhigh : c.toNat ≤ 57 := h.2
  simp only [Text.isBlank, Bool.or_eq_false_iff, Bool.and_eq_false_iff, decide_eq_false_iff_not,
    beq_eq_false_iff_ne]
  omega

/-- Without blanks there is nothing to trim. -/
theorem trimChars_eq_self {cs : List Char} (h : ∀ c ∈ cs, Text.isBlank c = false) :
    Text.trimChars cs = cs := by
  have hkept : ∀ cs : List Char, (∀ c ∈ cs, Text.isBlank c = false) →
      cs.dropWhile Text.isBlank = cs := by
    intro cs h
    cases cs with
    | nil => rfl
    | cons c rest => rw [List.dropWhile_cons, h c List.mem_cons_self, if_neg Bool.false_ne_true]
  rw [Text.trimChars, hkept cs h, hkept cs.reverse (by simpa using h), List.reverse_reverse]

theorem place?_of_digits {text : List Char} (hall : ∀ c ∈ text, c.isDigit = true)
    (hne : text ≠ []) : place? text =
      let n := text.foldl (fun n c => n * 10 + (c.toNat - 48)) 0
      if n ≤ greatestPlace then some n else none := by
  have hplus : ∀ rest, text ≠ '+' :: rest := by
    rintro rest rfl
    exact absurd (hall '+' List.mem_cons_self) (by decide)
  simp only [place?]
  rw [if_neg]
  simp [hne, List.all_eq_true.mpr hall]

theorem place?_digits {n : Nat} (h : n ≤ greatestPlace) :
    place? (Text.trimChars (Nat.toDigits 10 n)) = some n := by
  obtain ⟨hall, hvalue⟩ := digits_spec n
  rw [trimChars_eq_self fun c hc => isBlank_digit (hall c hc)]
  rw [place?_of_digits hall Nat.toDigits_ne_nil, hvalue, if_pos h]

theorem sharedCell_gives {shared : List (List Char)} {place : Nat} {text : List Char}
    (h : shared[place]? = some text) (hplace : place ≤ greatestPlace) :
    Gives shared (sharedCell place) text := by
  have hdigits : ∀ c ∈ Nat.toDigits 10 place, c ≠ '<' ∧ c ≠ '&' := by
    intro c hc
    constructor <;>
    · rintro rfl
      exact absurd ((digits_spec place).1 _ hc) (by decide)
  have hinner : Scans [] (element "v" (Nat.toDigits 10 place)) _ [] :=
    (Scanner.scans_text hdigits).element rfl
  simp only [List.append_nil, List.nil_append, flushed] at hinner
  have htag : Scanner.isTag "c t=\"s\"".toList = true := by decide
  have hname : (Tag.ofContent "c t=\"s\"".toList).name = ['c'] := by decide
  have hkind : (Tag.ofContent "c t=\"s\"".toList).attribute? "t" = some "s" := by decide
  have hgives := gives_of_value htag hname hkind hinner fun done =>
    foldl_row_value (flushed_isData (Nat.toDigits 10 place).reverse) shared (.inl rfl) _ [] done
  have htext : (RowReader.atCell (some "s") (Nat.toDigits 10 place) []).cellText shared = text := by
    simp [RowReader.cellText, RowReader.atCell, place?_digits hplace, h]
  rw [flushed_content, List.reverse_reverse, List.nil_append, htext] at hgives
  exact hgives

/-! Rows and shared texts. -/

def sheetPart (cells : List (List Char)) (rest : List Char) : List Char :=
  openTag "worksheet".toList ++ (openTag "sheetData".toList ++ element "row" cells.flatten ++ rest)

def textPart (texts : List HeaderText) : List Char :=
  element "sst" (texts.flatMap fun text => element "si" text.write)

/-- The shared texts are the contents of the texts, verbatim sections included. -/
theorem sharedTexts_textPart (texts : List HeaderText) :
    ∃ events, Markup.read (textPart texts) = ⟨events, none⟩ ∧
      sharedTexts events = texts.map (·.content true) := by
  have hitems : ∀ texts : List HeaderText, ∃ events,
      Scans [] (texts.flatMap fun text => element "si" text.write) events [] ∧
      ∀ done, events.foldl SharedReader.step ⟨false, false, [], done⟩ =
        ⟨false, false, [], (texts.map (·.content true)).reverse ++ done⟩ := by
    intro texts
    induction texts with
    | nil => exact ⟨[], .nil [], fun _ => rfl⟩
    | cons text rest ih =>
      obtain ⟨events, hscans, hcarries⟩ := text.scans
      obtain ⟨others, hscans', hothers⟩ := ih
      refine ⟨_, (hscans.element rfl).append hscans', fun done => ?_⟩
      have hopen : SharedReader.step ⟨false, false, [], done⟩
          (.opened (Tag.ofContent "si".toList)) = .atItem [] done := rfl
      have hclose : SharedReader.step (.atItem (text.content true) done)
          (.closed (Tag.ofContent "si".toList).name) =
            ⟨false, false, [], text.content true :: done⟩ := rfl
      simp only [flushed, List.nil_append, List.append_nil, List.cons_append, List.foldl_cons,
        List.foldl_append, hopen, hcarries.shared, hclose, hothers, List.map_cons,
        List.reverse_cons, List.append_assoc]
  obtain ⟨events, hscans, hevents⟩ := hitems texts
  refine ⟨_, Markup.read_element (hscans.element rfl), ?_⟩
  have hopen : SharedReader.step .start (.opened (Tag.ofContent "sst".toList)) =
      ⟨false, false, [], []⟩ := rfl
  have hclose : ∀ done, SharedReader.step ⟨false, false, [], done⟩
      (.closed (Tag.ofContent "sst".toList).name) = ⟨false, false, [], done⟩ := fun _ => rfl
  simp only [sharedTexts, flushed, List.nil_append, List.append_nil, List.cons_append,
    List.foldl_cons, List.foldl_append, List.foldl_nil, hopen, hevents, hclose,
    List.reverse_reverse]

theorem foldl_cells {shared cells texts : List (List Char)}
    (h : List.Forall₂ (Gives shared) cells texts) : ∃ events, Scans [] cells.flatten events [] ∧
      ∀ value done, ∃ value', events.foldl (RowReader.step shared) (.atCell none value done) =
        .atCell none value' ((texts.filterMap header?).reverse ++ done) := by
  induction h with
  | nil => exact ⟨[], .nil [], fun value _ => ⟨value, rfl⟩⟩
  | @cons cell text cells texts hcell _ ih =>
    obtain ⟨events, hscans, hevents⟩ := hcell
    obtain ⟨others, hscans', hothers⟩ := ih
    refine ⟨_, hscans.append hscans', fun value done => ?_⟩
    obtain ⟨between, hbetween⟩ := hevents value done
    obtain ⟨after, hafter⟩ := hothers between ((header? text).toList ++ done)
    refine ⟨after, ?_⟩
    rw [List.foldl_append, hbetween, hafter]
    cases hheader : header? text <;> simp [hheader]

theorem foldl_ended (shared : List (List Char)) (events : List Event) {r : RowReader}
    (h : r.ended = true) : events.foldl (RowReader.step shared) r = r := by
  induction events with
  | nil => rfl
  | cons e rest ih =>
    have hstep : RowReader.step shared r e = r := by
      simp [RowReader.step, h]
    rw [List.foldl_cons, hstep, ih]

/-- Once the row has ended the headers are those met so far, whatever comes and whatever is wrong
with it. -/
theorem firstRow_of_ended {shared : List (List Char)} {events : List Event} {r : RowReader}
    (hread : events.foldl (RowReader.step shared) .start = r) (h : r.ended = true)
    (m : Markup) : firstRow shared (m.behind events) = .ok r.done.reverse := by
  rw [firstRow, Markup.behind, List.foldl_append, hread, foldl_ended shared m.events h]
  simp [h]

/-- Before any row, a row is read to the headers that its cells give, and the reader stops. -/
theorem foldl_row {shared cells texts : List (List Char)}
    (h : List.Forall₂ (Gives shared) cells texts) : ∃ events value,
      Scans [] (element "row" cells.flatten) events [] ∧
      events.foldl (RowReader.step shared) .start =
        ⟨true, true, none, false, value, (texts.filterMap header?).reverse⟩ := by
  obtain ⟨events, hscans, hevents⟩ := foldl_cells h
  obtain ⟨value, hvalue⟩ := hevents [] []
  have hrow : Scans [] (element "row" cells.flatten) _ [] := hscans.element rfl
  simp only [flushed, List.nil_append, List.append_nil] at hrow hvalue
  refine ⟨_, value, hrow, ?_⟩
  have hopen : RowReader.step shared .start (.opened (Tag.ofContent "row".toList)) =
      .atCell none [] [] := rfl
  have hclose : ∀ done, RowReader.step shared (.atCell none value done)
      (.closed (Tag.ofContent "row".toList).name) = ⟨true, true, none, false, value, done⟩ :=
    fun _ => rfl
  rw [List.foldl_append, List.foldl_cons, List.foldl_nil, List.foldl_cons, hopen, hvalue, hclose]

/-- The headers of a sheet are those that its cells give, whatever comes behind the row. -/
theorem firstRow_sheetPart {shared cells texts : List (List Char)}
    (h : List.Forall₂ (Gives shared) cells texts) (rest : List Char) :
    firstRow shared (Markup.read (sheetPart cells rest)) = .ok (texts.filterMap header?) := by
  obtain ⟨events, value, hscans, hevents⟩ := foldl_row h
  let tags : List Event :=
    [.opened (Tag.ofContent "worksheet".toList), .opened (Tag.ofContent "sheetData".toList)]
  have hmet : Scanner.scanned (openTag "worksheet".toList ++ (openTag "sheetData".toList ++
      element "row" cells.flatten)) =
        ⟨.text [], ["sheetData".toList, "worksheet".toList], (tags ++ events).reverse⟩ := by
    have hscanned : ∀ rest, Scanner.scanned (openTag "worksheet".toList ++ rest) =
        (openTag "worksheet".toList ++ rest).foldl Scanner.step .start := fun _ =>
      Scanner.scanned_eq (by simp [openTag])
    rw [hscanned, List.foldl_append, List.foldl_append, Scanner.start, Scanner.feed_open rfl,
      Scanner.feed_open rfl, hscans, List.reverse_append]
    rfl
  have hread : (tags ++ events).foldl (RowReader.step shared) .start =
      ⟨true, true, none, false, value, (texts.filterMap header?).reverse⟩ := hevents
  rw [sheetPart, ← List.append_assoc, Markup.read_append (by simp [openTag]) hmet,
    firstRow_of_ended hread rfl, List.reverse_reverse]

end Collate.Workbook
