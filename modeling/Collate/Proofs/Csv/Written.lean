import Collate.Csv.Records
import Collate.Csv.Writer
import Mathlib.Tactic.ByContra

/-!
Written records are split into the same records. A field is written so that the
splitter, at the start of a field, takes all of it and nothing more; the comma
or line feed that follows ends it. Where the splitter stands is left out of the
account: only the fields matter.
-/

namespace Collate.Csv

variable {α : Type}

def markOfChar (c : Char) : Mark :=
  if c == ',' then .comma
  else if c == '"' then .quote
  else if c == '\r' then .carriageReturn
  else if c == '\n' then .lineFeed
  else .plain

theorem isSpecial_iff (c : Char) : isSpecial c = true ↔ markOfChar c ≠ .plain := by
  unfold isSpecial markOfChar
  grind

namespace Splitter

/-- What a splitter has taken, lists under way being in reverse. -/
structure Holds (s : Splitter α) (spot : Spot) (field : List α) (fields : List (List α))
    (records : List (List (List α))) : Prop where
  spot_eq : s.spot = spot
  field_eq : s.field = field
  fields_eq : s.fields = fields
  records_eq : s.records.map (·.fields) = records

section Step

variable {markOf : α → Mark} {s : Splitter α} {a : α} {field : List α}
  {fields : List (List α)} {records : List (List (List α))}

theorem Holds.plain {spot : Spot} (h : s.Holds spot field fields records) (hspot : spot ≠ .quoted)
    (ha : markOf a = .plain) : (s.step markOf a).Holds .field (a :: field) fields records := by
  obtain ⟨hs, hf, hfs, hr⟩ := h
  cases spot with
  | quoted => exact absurd rfl hspot
  | between => constructor <;> simp [step, count, take, hs, ha, Mark.endsLine, atStart, outside,
      keep, hf, hfs, hr]
  | fieldStart => constructor <;> simp [step, count, take, hs, ha, atStart, outside, keep, hf,
      hfs, hr]
  | field => constructor <;> simp [step, count, take, hs, ha, outside, keep, hf, hfs, hr]
  | quoteSeen => constructor <;> simp [step, count, take, hs, ha, outside, keep, hf, hfs, hr]

theorem Holds.comma {spot : Spot} (h : s.Holds spot field fields records) (hspot : spot ≠ .quoted)
    (ha : markOf a = .comma) :
    (s.step markOf a).Holds .fieldStart [] (field.reverse :: fields) records := by
  obtain ⟨hs, hf, hfs, hr⟩ := h
  cases spot with
  | quoted => exact absurd rfl hspot
  | between => constructor <;> simp [step, count, take, hs, ha, Mark.endsLine, atStart, outside,
      endField, hf, hfs, hr]
  | fieldStart => constructor <;> simp [step, count, take, hs, ha, atStart, outside, endField,
      hf, hfs, hr]
  | field => constructor <;> simp [step, count, take, hs, ha, outside, endField, hf, hfs, hr]
  | quoteSeen => constructor <;> simp [step, count, take, hs, ha, outside, endField, hf, hfs, hr]

/-- A line end after something of a record ends the record. -/
theorem Holds.lineEnd {spot : Spot} (h : s.Holds spot field fields records)
    (hspot : spot ≠ .quoted) (hbegun : spot ≠ .between) (ha : (markOf a).endsLine = true) :
    (s.step markOf a).Holds .between [] []
      ((field.reverse :: fields).reverse :: records) := by
  obtain ⟨hs, hf, hfs, hr⟩ := h
  cases hm : markOf a <;> simp only [hm, Mark.endsLine, Bool.false_eq_true] at ha
  all_goals
    cases spot with
    | quoted => exact absurd rfl hspot
    | between => exact absurd rfl hbegun
    | fieldStart => constructor <;> simp [step, count, take, hs, hm, atStart, outside, endRecord,
        hf, hfs, hr]
    | field => constructor <;> simp [step, count, take, hs, hm, outside, endRecord, hf, hfs, hr]
    | quoteSeen => constructor <;> simp [step, count, take, hs, hm, outside, endRecord, hf, hfs,
        hr]

/-- A line end before a record is passed over. -/
theorem Holds.blankLine (h : s.Holds .between field fields records)
    (ha : (markOf a).endsLine = true) :
    (s.step markOf a).Holds .between field fields records := by
  obtain ⟨hs, hf, hfs, hr⟩ := h
  constructor <;> simp [step, count, take, hs, ha, hf, hfs, hr]

theorem Holds.opening {spot : Spot} (h : s.Holds spot field fields records)
    (hspot : spot = .between ∨ spot = .fieldStart) (ha : markOf a = .quote) :
    (s.step markOf a).Holds .quoted field fields records := by
  obtain ⟨hs, hf, hfs, hr⟩ := h
  rcases hspot with rfl | rfl
  · constructor <;> simp [step, count, take, hs, ha, Mark.endsLine, atStart, hf, hfs, hr]
  · constructor <;> simp [step, count, take, hs, ha, atStart, hf, hfs, hr]

/-- A quotation mark inside an unquoted field is taken as it stands. -/
theorem Holds.strayQuote (h : s.Holds .field field fields records) (ha : markOf a = .quote) :
    (s.step markOf a).Holds .field (a :: field) fields records := by
  obtain ⟨hs, hf, hfs, hr⟩ := h
  constructor <;> simp [step, count, take, hs, ha, outside, keep, hf, hfs, hr]

theorem Holds.inside (h : s.Holds .quoted field fields records) (ha : markOf a ≠ .quote) :
    (s.step markOf a).Holds .quoted (a :: field) fields records := by
  obtain ⟨hs, hf, hfs, hr⟩ := h
  constructor <;> simp [step, count, take, hs, ha, hf, hfs, hr]

theorem Holds.closing (h : s.Holds .quoted field fields records) (ha : markOf a = .quote) :
    (s.step markOf a).Holds .quoteSeen field fields records := by
  obtain ⟨hs, hf, hfs, hr⟩ := h
  constructor <;> simp [step, count, take, hs, ha, hf, hfs, hr]

theorem Holds.doubled (h : s.Holds .quoteSeen field fields records) (ha : markOf a = .quote) :
    (s.step markOf a).Holds .quoted (a :: field) fields records := by
  obtain ⟨hs, hf, hfs, hr⟩ := h
  constructor <;> simp [step, count, take, hs, ha, hf, hfs, hr]

/-- Plain symbols, at least one of them, are taken into the field. -/
theorem Holds.plains {spot : Spot} {symbols : List α} (h : s.Holds spot field fields records)
    (hspot : spot ≠ .quoted) (hne : symbols ≠ []) (hplain : ∀ a ∈ symbols, markOf a = .plain) :
    (symbols.foldl (step markOf) s).Holds .field (symbols.reverse ++ field) fields records := by
  induction symbols generalizing s spot field with
  | nil => exact absurd rfl hne
  | cons a rest ih =>
    have hfirst := h.plain hspot (hplain a (by simp))
    rw [List.foldl_cons]
    by_cases hrest : rest = []
    · subst hrest
      simpa using hfirst
    · have htail := ih hfirst (by simp) hrest fun b hb => hplain b (by simp [hb])
      simpa using htail

end Step

section Written

variable {s : Splitter Char} {field : List Char} {fields : List (List Char)}
  {records : List (List (List Char))}

theorem markOfChar_quote : markOfChar '"' = .quote := rfl

theorem markOfChar_comma : markOfChar ',' = .comma := rfl

theorem markOfChar_lineFeed : (markOfChar '\n').endsLine = true := rfl

/-- Between quotation marks a text with its quotation marks doubled is taken as
it was. -/
theorem Holds.doubledText (text : List Char) (h : s.Holds .quoted field fields records) :
    ((text.flatMap double).foldl (step markOfChar) s).Holds .quoted (text.reverse ++ field)
      fields records := by
  induction text generalizing s field with
  | nil => simpa using h
  | cons c rest ih =>
    rw [List.flatMap_cons, List.foldl_append]
    have hc : ((double c).foldl (step markOfChar) s).Holds .quoted (c :: field) fields records := by
      by_cases hquote : c = '"'
      · subst hquote
        have hseen := h.closing markOfChar_quote
        exact hseen.doubled rfl
      · have hmark : markOfChar c ≠ .quote := by
          unfold markOfChar
          grind
        have hdouble : double c = [c] := by simp [double, hquote]
        rw [hdouble]
        exact h.inside hmark
    simpa using ih hc

/-- After a written field the splitter holds the field, and the next comma or
line end will end it. Only an empty field leaves the splitter where it was. -/
theorem Holds.writtenField {spot : Spot} (text : List Char)
    (h : s.Holds spot [] fields records) (hspot : spot = .between ∨ spot = .fieldStart) :
    ∃ after, ((writeField text).foldl (step markOfChar) s).Holds after text.reverse fields records ∧
      after ≠ .quoted ∧ (after = .between → text = [] ∧ spot = .between) := by
  unfold writeField
  by_cases hspecial : text.any isSpecial = true
  · -- quotation mark, text with its marks doubled, quotation mark
    rw [if_pos hspecial, List.cons_append, List.foldl_cons, List.foldl_append]
    have hopen := h.opening hspot markOfChar_quote
    have htext := hopen.doubledText text
    have hclose := htext.closing markOfChar_quote
    refine ⟨.quoteSeen, by simpa using hclose, by simp, by simp⟩
  · rw [if_neg hspecial]
    by_cases hempty : text = []
    · subst hempty
      refine ⟨spot, h, ?_, fun hb => ⟨rfl, hb⟩⟩
      rcases hspot with rfl | rfl <;> simp
    · have hplain : ∀ c ∈ text, markOfChar c = .plain := by
        intro c hc
        by_contra hmark
        exact hspecial (List.any_eq_true.mpr ⟨c, hc, (isSpecial_iff c).mpr hmark⟩)
      have hspot' : spot ≠ .quoted := by rcases hspot with rfl | rfl <;> simp
      have htaken := h.plains hspot' hempty hplain
      exact ⟨.field, by simpa using htaken, by simp, by simp⟩

/-- The fields of a record and its line feed are taken as one record. At the
start of a line this needs more than one empty field, for an empty line is no
record. -/
theorem Holds.writtenFields {spot : Spot} {row : List (List Char)}
    (h : s.Holds spot [] fields records) (hspot : spot = .between ∨ spot = .fieldStart)
    (hrow : row ≠ []) (hline : spot = .between → row ≠ [[]]) :
    ((writeFields row ++ ['\n']).foldl (step markOfChar) s).Holds .between [] []
      ((fields.reverse ++ row) :: records) := by
  induction row generalizing s spot fields with
  | nil => exact absurd rfl hrow
  | cons text rest ih =>
    obtain ⟨after, hafter, hquoted, hbetween⟩ := h.writtenField text hspot
    cases rest with
    | nil =>
      have hbegun : after ≠ .between := by
        intro hb
        obtain ⟨rfl, hs⟩ := hbetween hb
        exact hline hs rfl
      have hend := hafter.lineEnd hquoted hbegun markOfChar_lineFeed
      simpa [writeFields] using hend
    | cons next more =>
      have hcomma := hafter.comma hquoted markOfChar_comma
      have htail := ih hcomma (Or.inr rfl) (by simp) (by simp)
      simpa [writeFields] using htail

theorem Holds.writtenRecord {row : List (List Char)} (h : s.Holds .between [] [] records)
    (hrow : row ≠ []) :
    ((writeRecord row).foldl (step markOfChar) s).Holds .between [] [] (row :: records) := by
  by_cases hline : row = [[]]
  · subst hline
    have hopen := h.opening (Or.inl rfl) markOfChar_quote
    have hclose := hopen.closing markOfChar_quote
    have hend := hclose.lineEnd (by simp) (by simp) markOfChar_lineFeed
    simpa [writeRecord] using hend
  · have hwritten := h.writtenFields (Or.inl rfl) hrow fun _ => hline
    simpa [writeRecord, hline] using hwritten

theorem Holds.writtenRecords {rows : List (List (List Char))} (h : s.Holds .between [] [] records)
    (hrows : ∀ row ∈ rows, row ≠ []) :
    ((writeRecords rows).foldl (step markOfChar) s).Holds .between [] []
      (rows.reverse ++ records) := by
  induction rows generalizing s records with
  | nil => simpa [writeRecords] using h
  | cons row rest ih =>
    have hfirst := h.writtenRecord (hrows row (by simp))
    have hrest := ih hfirst fun other hother => hrows other (by simp [hother])
    simpa [writeRecords, List.foldl_append] using hrest

end Written

end Splitter

/-- Records that have fields are split as they were written. -/
theorem split_writeRecords {rows : List (List (List Char))} (hrows : ∀ row ∈ rows, row ≠ [])
    (offset : Nat) :
    (split markOfChar offset (writeRecords rows)).map (·.fields) = rows := by
  have hstart : (Splitter.start (α := Char) offset).Holds .between [] [] [] :=
    ⟨rfl, rfl, rfl, rfl⟩
  have hend := hstart.writtenRecords hrows
  unfold split Splitter.finish
  rw [hend.spot_eq]
  simp [hend.records_eq]

end Collate.Csv
