import Collate.Csv.Reader
import Collate.Csv.Writer
import Collate.Table.Basic
import Collate.Text.Blank

/-!
Tables as comma-separated values. The first record names the columns: names are
trimmed, columns without a name are left out, and of columns with one name the
first is kept. Cells are taken as they stand, a record that is too short being
filled up with empty cells. A table is written with its headers first; one
without headers is written as nothing at all.
-/

namespace Collate.Table

/-- The cells of a record by column name, the first column of a name counting.
`taken` holds the names met so far. -/
def pairCells (taken : List String) : List String → List String → List (String × String)
  | [], _ => []
  | name :: names, fields =>
    let rest := fields.drop 1
    if name.isEmpty || taken.contains name then pairCells taken names rest
    else (name, fields.headD "") :: pairCells (name :: taken) names rest

/-- The table of a header record and data records. -/
def ofFields : List (List String) → Table
  | [] => empty
  | header :: records =>
    let names := header.map Text.trim
    let t := withHeaders (names.filter fun n => !n.isEmpty)
    (records.map (pairCells [] names)).foldl pushRow t

/-- Reads a table. -/
def ofCsv (octets : Octets) : Except Csv.Fault Table :=
  (Csv.readRecords octets).map ofFields

def toFields (t : Table) : List (List String) :=
  t.headers :: t.rows.map fun row => t.headers.map (rowCell row)

def toCsv (t : Table) : String :=
  if t.headers.isEmpty then ""
  else String.ofList (Csv.writeRecords (t.toFields.map (·.map String.toList)))

end Collate.Table
