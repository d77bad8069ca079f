import Collate.Disk
import Collate.Table.Csv
import Collate.Text.Case
import Collate.Workbook.Headers

/-!
Mapping files, which a user uploads to pick join keys from. Only their headers
are looked at. A file of comma-separated values counts as one sheet with the
stem of the file's name; the format of any file follows from its extension.
-/

namespace Collate.MappingFile

inductive Fault where
  /-- The extension, after a point, or the whole name when there is none. -/
  | unsupported (format : String)
  | unreadable (path : String) (error : DiskError)
  | csv (fault : Csv.Fault)
  | workbook (fault : Workbook.WorkbookFault)
  deriving DecidableEq, Repr

def Fault.message : Fault → String
  | .unsupported format => s!"Unsupported mapping file format: {format}"
  | .unreadable path error => s!"Failed to read mapping file '{path}': {error.message}"
  | .csv fault => s!"Failed to parse CSV mapping file: {fault.message}"
  | .workbook fault => s!"Failed to process XLSX mapping file: {fault.message}"

/-- The headers in comma-separated values, as the one sheet of a name. -/
def csvHeaders (sheet : String) (content : Octets) : Except Fault Workbook.SheetHeaders :=
  match Table.ofCsv content with
  | .ok t => .ok (Dict.ofList [(sheet, t.headers)])
  | .error fault => .error (.csv fault)

def headers (filename : String) (content : Octets) : Except Fault Workbook.SheetHeaders :=
  let unsupported : Except Fault Workbook.SheetHeaders := .error (.unsupported filename)
  match Path.nameParts? filename with
  | none => unsupported
  | some parts =>
    match parts.extension? with
    | none => unsupported
    | some extension =>
      let extension := Text.lowerAscii extension
      if extension = "csv" then csvHeaders parts.stem content
      else if extension = "xlsx" then (Workbook.headers content).mapError .workbook
      else if extension = "" then unsupported
      else .error (.unsupported ("." ++ extension))

def headersAt (d : Disk) (path : String) : Except Fault Workbook.SheetHeaders :=
  match d.read path with
  | .ok content => headers ((Path.fileName? path).getD "") content
  | .error e => .error (.unreadable path e)

end Collate.MappingFile
