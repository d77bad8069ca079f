/-!
Writing comma-separated values. A field is put in quotation marks only when it
holds a comma, a quotation mark or a line end, and then its quotation marks are
written twice. Every record ends with a line feed. A record whose only field is
empty is written as two quotation marks, because an empty line is no record.
-/

namespace Collate.Csv

/-- Whether a character forces quotation marks. -/
def isSpecial (c : Char) : Bool :=
  c == ',' || c == '"' || c == '\r' || c == '\n'

def double (c : Char) : List Char :=
  if c == '"' then ['"', '"'] else [c]

def writeField (field : List Char) : List Char :=
  if field.any isSpecial then '"' :: field.flatMap double ++ ['"'] else field

def writeFields : List (List Char) → List Char
  | [] => []
  | [field] => writeField field
  | field :: rest => writeField field ++ ',' :: writeFields rest

/-- A record with its line end. -/
def writeRecord (fields : List (List Char)) : List Char :=
  match fields with
  | [[]] => ['"', '"', '\n']
  | fields => writeFields fields ++ ['\n']

def writeRecords (records : List (List (List Char))) : List Char :=
  records.flatMap writeRecord

end Collate.Csv
