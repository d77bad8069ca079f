import Collate.Payload
import Collate.Table.Basic

/-!
From payloads to tables. An array at the top gives one row per element, which
is the only place where rows multiply; anything else gives one row, and an empty
payload none. Inside a row, nested objects become columns named by their path,
arrays of scalars are joined into one cell, and other arrays stay JSON text.
-/

namespace Collate

/-- How paths and arrays are written. -/
structure FlattenOptions where
  /-- Stands between the keys of a path. -/
  separator : String
  /-- Stands between the scalars of an array. -/
  delimiter : String
  deriving DecidableEq, Repr

/-- A point between keys, a semicolon and a blank between scalars. -/
def FlattenOptions.standard : FlattenOptions := ⟨".", "; "⟩

namespace Table

/-- The column of values that have no key of their own. -/
def scalarColumn : String := "value"

def arrayCell (options : FlattenOptions) (items : List Json) : String :=
  if items.all Json.isScalar then options.delimiter.intercalate (items.map Json.cell)
  else (Json.array items).text

def columnName (options : FlattenOptions) (path : Option String) (key : String) : String :=
  match path with
  | some p => p ++ options.separator ++ key
  | none => key

mutual

/-- The cells of a value that stands under a column name. -/
def valueCells (options : FlattenOptions) (header : String) : Json → List (String × String)
  | .object [] => [(header, "")]
  | .object (field :: rest) => fieldCells options (some header) (field :: rest)
  | .array items => [(header, arrayCell options items)]
  | scalar => [(header, scalar.cell)]

/-- The cells of an object's fields below a path. -/
def fieldCells (options : FlattenOptions) (path : Option String) :
    List (String × Json) → List (String × String)
  | [] => []
  | (key, value) :: rest =>
    valueCells options (columnName options path key) value ++ fieldCells options path rest

end

def recordCells (options : FlattenOptions) : Json → List (String × String)
  | .object fields => fieldCells options none fields
  | .array items => [(scalarColumn, arrayCell options items)]
  | scalar => [(scalarColumn, scalar.cell)]

/-- The values that become rows. -/
def records (doc : Json) : List Json :=
  if doc.isVoid then []
  else match doc with
    | .array items => items
    | other => [other]

/-- The table of a payload. -/
def ofPayload (options : FlattenOptions) (doc : Json) : Table :=
  ofRecords ((records doc).map (recordCells options))

def ofPayloadText (options : FlattenOptions) (payload : String) : Except PayloadError Table :=
  (readPayload payload).map (ofPayload options)

end Table

end Collate
