import Collate.Dict
import Collate.Number.Literal

/-!
JSON documents as data. The fields of an object are kept in document order, and
a key may occur more than once: readers of typed data refuse that, while
`unify` lets the last value win at the place of the first occurrence, and `sorted`
does the same and puts all fields in the order of their keys.
-/

namespace Collate

inductive Json where
  | null
  | bool (value : Bool)
  | number (value : Number)
  | string (value : String)
  | array (items : List Json)
  | object (fields : List (String × Json))
  deriving Repr, Inhabited, BEq

namespace Json

/-- Puts a value under a key: in place of an earlier value of that key, else at
the end. -/
def put (key : String) (value : Json) : List (String × Json) → List (String × Json)
  | [] => [(key, value)]
  | (k, v) :: rest => if k = key then (k, value) :: rest else (k, v) :: put key value rest

mutual

/-- The document with every key of every object occurring once, the last value
standing where the key occurred first. -/
def unify : Json → Json
  | .array items => .array (unifyItems items)
  | .object fields => .object (unifyFields [] fields)
  | other => other

def unifyItems : List Json → List Json
  | [] => []
  | item :: rest => item.unify :: unifyItems rest

/-- The fields still to come put after those already gathered. -/
def unifyFields (gathered : List (String × Json)) : List (String × Json) → List (String × Json)
  | [] => gathered
  | (key, value) :: rest => unifyFields (put key value.unify gathered) rest

end

mutual

/-- The document with the fields of every object in key order, each key occurring
once with its last value. -/
def sorted : Json → Json
  | .array items => .array (sortedItems items)
  | .object fields => .object (sortedFields [] fields)
  | other => other

def sortedItems : List Json → List Json
  | [] => []
  | item :: rest => item.sorted :: sortedItems rest

def sortedFields (gathered : List (String × Json)) : List (String × Json) → List (String × Json)
  | [] => gathered
  | (key, value) :: rest => sortedFields (Dict.place key value.sorted gathered) rest

end

/-- The value under a key, the last one if the key is repeated. -/
def field? (key : String) (fields : List (String × Json)) : Option Json :=
  (fields.reverse.find? (·.1 == key)).map (·.2)

end Json

end Collate
