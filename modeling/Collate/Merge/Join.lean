import Collate.Mapping.Template
import Collate.Matching.KeyIndex

/-!
Left outer joins. The attachments of an item become one table, stacked or
chained on a key of their own, and that table is joined to the primary one: for
each primary row the keys are tried in order, and the first key under which some
attachment row has an equal value decides. Every primary row appears, once for
each match or once without one, and two more columns say which key and which
value joined it.
-/

namespace Collate

def joinKeyColumn : String := "_join_key"

def joinValueColumn : String := "_join_value"

/-- Stands in for the key of rows that no attachment row matched. -/
def unmatched : String := "unmatched"

/-- Whether a column records how a row was joined. -/
def isProvenance (header : String) : Bool :=
  header == joinKeyColumn || header == joinValueColumn

inductive MergeError where
  | noJoinKeys
  | noInternalKey
  deriving DecidableEq, Repr

def MergeError.message : MergeError → String
  | .noJoinKeys => "No external join keys configured"
  | .noInternalKey => "Multi-source merge requires an internal join key"

/-- The keys a plan can use: trimmed, blank ones left out. -/
def usableKeys (plan : JoinPlan) : List String :=
  (plan.externalKeys.map Text.trim).filter fun k => !k.isEmpty

namespace Table

def stack : List Table → Table
  | [] => empty
  | first :: rest => rest.foldl extend first

def newHeaders (left right : Table) : List String :=
  right.headers.filter fun h => !left.hasHeader h

def extendRow (headers : List String) (row source : Row) : Row :=
  headers.foldl (fun row h => row.insert h (rowCell source h)) row

/-- The rows that a left row becomes: one for each matching right row, or the
row itself. -/
def spread (right : Table) (headers : List String) (row : Row) (positions : List Nat) :
    List Row :=
  if positions.isEmpty then [row]
  else positions.filterMap fun i => (right.rows[i]?).map (extendRow headers row)

/-- Joins a table to the rows of another on one key. -/
def leftJoin (rule : MatchRule) (key : String) (left right : Table) : Table :=
  let index := KeyIndex.build rule right key
  let headers := newHeaders left right
  let rows := left.rows.flatMap fun row =>
    spread right headers row (index.lookup rule (rowCell row key))
  (rows.map (·.entries)).foldl pushRow (withHeaders (left.headers ++ headers))

/-- Joins tables to each other, first to last, on one key. Leading tables
without rows are left out, since they would leave nothing to join to. -/
def chain (rule : MatchRule) (key : String) (tables : List Table) : Table :=
  match tables.dropWhile isEmpty with
  | [] => empty
  | first :: rest => rest.foldl (leftJoin rule key) first

end Table

/-- The attachments of a plan as one table. -/
def combine (plan : JoinPlan) (rule : MatchRule) (attachments : List Table) :
    Except MergeError Table :=
  let renamed := attachments.map (·.rename plan.aliases)
  match plan.itemType with
  | .singleSource => .ok (Table.stack renamed)
  | .multiSource =>
    match presentText? plan.internalKey with
    | some key => .ok (Table.chain rule key renamed)
    | none => .error .noInternalKey

/-- The first key under which a row has matches, with the row's value and the
positions of the matches. -/
def firstMatch (rule : MatchRule) (row : Row) :
    List (String × KeyIndex) → Option (String × String × List Nat)
  | [] => none
  | (key, index) :: rest =>
    let value := Table.rowCell row key
    match index.lookup rule value with
    | [] => firstMatch rule row rest
    | positions => some (key, value, positions)

def markRow (key value : String) (row : Row) : Row :=
  (row.insert joinKeyColumn key).insert joinValueColumn value

/-- A primary table joined with its attachments. -/
structure Merged where
  table : Table
  deriving DecidableEq, Repr

namespace Merged

def broughtHeaders (primary attachments : Table) : List String :=
  (Table.newHeaders primary attachments).filter fun h => !isProvenance h

def joinRow (rule : MatchRule) (attachments : Table) (headers : List String)
    (indexes : List (String × KeyIndex)) (row : Row) : List Row :=
  match firstMatch rule row indexes with
  | some (key, value, positions) =>
    (Table.spread attachments headers row positions).map (markRow key value)
  | none => [markRow unmatched "" row]

/-- Joins one table of attachments to a primary table. -/
def ofJoin (rule : MatchRule) (keys : List String) (primary attachments : Table) : Merged :=
  let headers := broughtHeaders primary attachments
  let indexes := keys.map fun key => (key, KeyIndex.build rule attachments key)
  let rows := primary.rows.flatMap (joinRow rule attachments headers indexes)
  let start := Table.withHeaders
    (primary.headers ++ headers ++ [joinKeyColumn, joinValueColumn])
  ⟨(rows.map (·.entries)).foldl Table.pushRow start⟩

def empty : Merged := ⟨Table.empty⟩

/-- Merged tables one after the other, with the columns of all of them and the
provenance columns last. -/
def concat (parts : List Merged) : Merged :=
  if parts.isEmpty then empty
  else
    let headers := (parts.flatMap (·.table.headers)).filter fun h => !isProvenance h
    let start := Table.withHeaders (headers ++ [joinKeyColumn, joinValueColumn])
    ⟨(parts.map (·.table)).foldl Table.extend start⟩

/-- How many rows each key joined. -/
def summary (m : Merged) : Dict Nat :=
  m.table.rows.foldl
    (fun counts row =>
      let key := Table.rowCell row joinKeyColumn
      counts.insert key ((counts.get? key).getD 0 + 1))
    Dict.empty

end Merged

/-- Merges attachments into a primary table. -/
def merge (plan : JoinPlan) (rule : MatchRule) (primary : Table) (attachments : List Table) :
    Except MergeError Merged :=
  match usableKeys plan with
  | [] => .error .noJoinKeys
  | keys =>
    match combine plan rule attachments with
    | .error e => .error e
    | .ok combined => .ok (Merged.ofJoin rule keys primary combined)

end Collate
