import Collate.Dict

/-!
Tables: an ordered list of headers and rows of cells by header. A table built
with the operations of this module is well formed: no header is repeated and
every row has a cell for exactly the headers, cells that were never set being
empty. The operations only ever append headers and rows, renaming apart.
-/

namespace Collate

/-- One row, its cells by header. -/
abbrev Row := Dict String

/-- Rows that share a list of headers. -/
structure Table where
  headers : List String
  rows : List Row
  deriving DecidableEq, Repr

namespace Table

def empty : Table := ⟨[], []⟩

instance : Inhabited Table := ⟨empty⟩

/-- No header is repeated, and every row has a cell for exactly the headers. -/
structure WellFormed (t : Table) : Prop where
  headers_nodup : t.headers.Nodup
  cells : ∀ row ∈ t.rows, ∀ h, row.contains h = true ↔ h ∈ t.headers

def size (t : Table) : Nat := t.rows.length

def isEmpty (t : Table) : Bool := t.rows.isEmpty

def hasHeader (t : Table) (header : String) : Bool :=
  t.headers.contains header

/-- Appends a header, every row gaining an empty cell. A header that is there
already stays where it is. -/
def addHeader (t : Table) (header : String) : Table :=
  if t.hasHeader header then t
  else ⟨t.headers ++ [header], t.rows.map (·.insert header "")⟩

def addHeaders (t : Table) (headers : List String) : Table :=
  headers.foldl addHeader t

/-- The table of the given headers, repeats dropped, without rows. -/
def withHeaders (headers : List String) : Table :=
  empty.addHeaders headers

/-- Gives a row an empty cell for every header it lacks. -/
def fill (headers : List String) (row : Row) : Row :=
  headers.foldl (fun row h => if row.contains h then row else row.insert h "") row

/-- Appends a row of cells. Headers not seen before are added in the order of
the cells; of two cells under one header the later one stands. -/
def pushRow (t : Table) (cells : List (String × String)) : Table :=
  let t := t.addHeaders (cells.map (·.1))
  { t with rows := t.rows ++ [fill t.headers (Dict.ofList cells)] }

def ofRecords (records : List (List (String × String))) : Table :=
  records.foldl pushRow empty

/-- The cell of a row under a header, empty when there is none. -/
def rowCell (row : Row) (header : String) : String :=
  (row.get? header).getD ""

def cell (t : Table) (position : Nat) (header : String) : String :=
  match t.rows[position]? with
  | some row => rowCell row header
  | none => ""

/-- Where a header goes under a map of renames. Chains are not followed. -/
def target (renames : Dict String) (header : String) : String :=
  (renames.get? header).getD header

/-- Puts the cell of a renamed column into a row unless something is there. -/
def fold (source : Row) (out : Row) (move : String × String) : Row :=
  if rowCell out move.2 = "" then out.insert move.2 (rowCell source move.1) else out

/-- A row after renaming. Columns that keep their name come first, so they win
over columns that land on them; among those the first non-empty one does. -/
def renameRow (moves : List (String × String)) (row : Row) : Row :=
  let kept := (moves.filter fun m => m.1 == m.2).map fun m => (m.2, rowCell row m.1)
  (moves.filter fun m => m.1 != m.2).foldl (fold row) (Dict.ofList kept)

/-- Renames headers, each looked up once in the map. Columns that land on one
name are folded together. -/
def rename (t : Table) (renames : Dict String) : Table :=
  let moves := t.headers.map fun h => (h, target renames h)
  if moves.all fun m => m.1 == m.2 then t
  else ⟨(withHeaders (moves.map (·.2))).headers, t.rows.map (renameRow moves)⟩

/-- Appends the rows of another table, with the headers it brings. -/
def extend (t other : Table) : Table :=
  let t := t.addHeaders other.headers
  { t with rows := t.rows ++ other.rows.map (fill t.headers) }

end Table

end Collate
