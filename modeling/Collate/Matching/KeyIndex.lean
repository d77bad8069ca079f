import Collate.Matching.Rule
import Collate.Table.Basic

/-!
An index of one column: the positions of the rows grouped by the compared form
of their cell. Rows with a blank cell are in no group. The slow answer, going
through all rows with `MatchRule.agrees`, is `positionsMatching`.
-/

namespace Collate

/-- Row positions of a table by the compared form of one column, each group in
increasing order. -/
structure KeyIndex where
  groups : Dict (List Nat)

namespace KeyIndex

def add (rule : MatchRule) (column : String) (groups : Dict (List Nat))
    (entry : Row × Nat) : Dict (List Nat) :=
  match (entry.1.get? column).bind rule.form? with
  | some form => groups.insert form ((groups.get? form).getD [] ++ [entry.2])
  | none => groups

/-- Indexes a column. A column that the table does not have is blank
throughout. -/
def build (rule : MatchRule) (t : Table) (column : String) : KeyIndex :=
  if t.hasHeader column then ⟨t.rows.zipIdx.foldl (add rule column) Dict.empty⟩
  else ⟨Dict.empty⟩

/-- Whether no row has a value in the column. -/
def isEmpty (index : KeyIndex) : Bool :=
  index.groups.entries.isEmpty

def lookup (rule : MatchRule) (index : KeyIndex) (value : String) : List Nat :=
  match rule.form? value with
  | some form => (index.groups.get? form).getD []
  | none => []

end KeyIndex

/-- The positions of the rows whose cell equals a value, found by going through
all rows. -/
def Table.positionsMatching (rule : MatchRule) (t : Table) (column value : String) : List Nat :=
  (t.rows.zipIdx.filter fun (row, _) => rule.agrees value (Table.rowCell row column)).map (·.2)

end Collate
