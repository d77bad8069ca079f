import Collate.Dict
import Collate.Workbook.Archive
import Collate.Workbook.FirstRow
import Collate.Workbook.SharedText
import Collate.Workbook.Sheets

/-!
The headers of all sheets of a workbook. The list of sheets has to be there;
relations, shared texts and the parts of single sheets may be missing, a missing
sheet having no headers. Of two sheets with one name the later one stands.
-/

namespace Collate.Workbook

inductive WorkbookFault where
  | archive (fault : ArchiveFault)
  | noSheetList
  /-- A part that is not text. -/
  | notText (part : String)
  | malformed (fault : MarkupFault)
  deriving DecidableEq, Repr

def sheetListPart : String := "xl/workbook.xml"

def relationsPart : String := "xl/_rels/workbook.xml.rels"

def sharedTextPart : String := "xl/sharedStrings.xml"

def WorkbookFault.message : WorkbookFault → String
  | .archive fault => s!"Failed to open workbook: {fault.message}"
  | .noSheetList => s!"Missing {sheetListPart}"
  | .notText part => s!"Failed to read {part}: stream did not contain valid UTF-8"
  | .malformed fault => s!"XML parsing error: {fault.message}"

abbrev SheetHeaders := Dict (List String)

namespace Archive

/-- The markup of a part, if the part is there. -/
def markup? (a : Archive) (part : String) : Except WorkbookFault (Option Markup) :=
  match a.entry? part with
  | none => .ok none
  | some content =>
    match Text.Utf8.decode content with
    | .ok text => .ok (some (Markup.read text))
    | .error _ => .error (.notText part)

def events (m : Markup) : Except WorkbookFault (List Event) :=
  match m.fault with
  | some fault => .error (.malformed fault)
  | none => .ok m.events

/-- Everything met in a part, nothing if the part is missing. -/
def eventsOf (a : Archive) (part : String) : Except WorkbookFault (List Event) := do
  match ← a.markup? part with
  | some m => events m
  | none => .ok []

def headersOf (a : Archive) (shared : List (List Char)) (part : String) :
    Except WorkbookFault (List String) := do
  match ← a.markup? part with
  | some m => (firstRow shared m).mapError .malformed
  | none => .ok []

/-- The headers of sheets, the first of them having the given index. -/
def headersOfSheets (a : Archive) (targets : List (String × String))
    (shared : List (List Char)) (index : Nat) :
    List Sheet → Except WorkbookFault (List (String × List String))
  | [] => .ok []
  | sheet :: rest => do
    let headers ← a.headersOf shared (sheet.part targets index)
    let more ← a.headersOfSheets targets shared (index + 1) rest
    .ok ((sheet.name, headers) :: more)

/-- The headers of all sheets of a workbook. -/
def headers (a : Archive) : Except WorkbookFault SheetHeaders := do
  let some list ← a.markup? sheetListPart | .error .noSheetList
  let sheets := listedSheets (← events list)
  let targets := relationTargets (← a.eventsOf relationsPart)
  let shared := sharedTexts (← a.eventsOf sharedTextPart)
  .ok (Dict.ofList (← a.headersOfSheets targets shared 0 sheets))

end Archive

def headers (file : Octets) : Except WorkbookFault SheetHeaders := do
  let archive ← (Archive.unpack file).mapError .archive
  archive.headers

end Collate.Workbook
