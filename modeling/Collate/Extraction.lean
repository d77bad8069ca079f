import Collate.Json.Writer
import Collate.Order.Item
import Collate.Table.Csv

/-!
Extraction of documents. What an extractor knows about a document besides its
content is a `DocumentConfig`. Documents that hold data already need no
recognition: JSON and plain text are taken as they are, and comma-separated
values become an array of rows.
-/

namespace Collate

structure DocumentConfig where
  company : String
  documentType : String
  role : FileRole
  contentType : Option String
  deriving DecidableEq, Repr

def DocumentConfig.ofFile (item : Item) (file : FileRef) : DocumentConfig where
  company := item.company
  documentType := item.documentType
  role := file.role
  contentType := file.contentType

/-- The rows of a table as a document, cells in header order. -/
def Table.toRows (t : Table) : Json :=
  .array (t.rows.map fun row =>
    .object (t.headers.map fun h => (h, .string (Table.rowCell row h))))

namespace Extraction

inductive Fault where
  | notText (fault : Text.Utf8.Fault)
  | unsupported (contentType : Option String)
  | csv (fault : Csv.Fault)
  deriving DecidableEq, Repr

def Fault.message : Fault → String
  | .notText fault => s!"document is not valid UTF-8: {fault.message}"
  | .unsupported (some contentType) => s!"no local extractor for {contentType}"
  | .unsupported none => "no local extractor for unknown content type"
  | .csv fault => s!"invalid CSV document: {fault.message}"

/-- Whether documents of a content type need no recognition. -/
def isSupported (contentType : Option String) : Bool :=
  contentType == some ContentType.json || contentType == some ContentType.csv ||
    contentType == some ContentType.plain

/-- The payload of a document that needs no recognition. -/
def passThrough (config : DocumentConfig) (content : Octets) : Except Fault String :=
  match Text.Utf8.decode content with
  | .error fault => .error (.notText fault)
  | .ok text =>
    if config.contentType = some ContentType.csv then
      match Table.ofCsv content with
      | .ok t => .ok t.toRows.text
      | .error fault => .error (.csv fault)
    else if config.contentType = some ContentType.json ∨
        config.contentType = some ContentType.plain then .ok (String.ofList text)
    else .error (.unsupported config.contentType)

end Extraction

end Collate
