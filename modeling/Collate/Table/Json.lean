import Collate.Json.Decode
import Collate.Matching.Rule
import Collate.Merge.Join
import Collate.Table.Flatten

/-!
The JSON form of tables, merged tables, flattening options and match rules. A
table is taken as it stands: its rows need not have its headers.
-/

namespace Collate

open Json (Read slots readText readList readDict readBool)

namespace Table

def ofJson : Read Table := fun doc => do
  let slot ← slots ["headers", "rows"] doc
  let headers ← (slot "headers").required (readList readText)
  let rows ← (slot "rows").required (readList (readDict readText))
  .ok ⟨headers, rows⟩

def toJson (t : Table) : Json :=
  .object [("headers", Json.ofTexts t.headers), ("rows", .array (t.rows.map Json.ofTextDict))]

end Table

namespace Merged

def ofJson : Read Merged := fun doc => do
  let slot ← slots ["table"] doc
  let table ← (slot "table").required Table.ofJson
  .ok ⟨table⟩

def toJson (m : Merged) : Json :=
  .object [("table", m.table.toJson)]

end Merged

namespace FlattenOptions

def ofJson : Read FlattenOptions := fun doc => do
  let slot ← slots ["flattenSeparator", "arrayDelimiter"] doc
  let delimiter ← (slot "arrayDelimiter").withDefault standard.delimiter readText
  let separator ← (slot "flattenSeparator").withDefault standard.separator readText
  .ok { separator, delimiter }

def toJson (o : FlattenOptions) : Json :=
  .object [("flattenSeparator", .string o.separator), ("arrayDelimiter", .string o.delimiter)]

end FlattenOptions

namespace MatchRule

def ofJson : Read MatchRule := fun doc => do
  let slot ← slots ["trim", "caseInsensitive"] doc
  let foldsCase ← (slot "caseInsensitive").withDefault tolerant.foldsCase readBool
  let trims ← (slot "trim").withDefault tolerant.trims readBool
  .ok { trims, foldsCase }

def toJson (r : MatchRule) : Json :=
  .object [("trim", .bool r.trims), ("caseInsensitive", .bool r.foldsCase)]

end MatchRule

end Collate
