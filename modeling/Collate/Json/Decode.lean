import Collate.Dict
import Collate.Json.Draft
import Collate.Number.Shortest

/-!
Typed reading of documents. A record is an object with known fields, others
being passed over even if they cannot be read, or an array of the fields in
order. What a record lacks may have a default; an array may lack fields at its
end only if each has one. The tag of a tagged record is a field among the
others, or the first element, and then all that stands beside it is read before
the tag tells what it is for.
-/

namespace Collate

structure WholeRange where
  name : String
  least : Int
  greatest : Int
  deriving DecidableEq, Repr

namespace WholeRange

def unsigned32 : WholeRange := ⟨"u32", 0, 4294967295⟩

def unsigned64 : WholeRange := ⟨"u64", 0, 18446744073709551615⟩

def size : WholeRange := ⟨"usize", 0, 18446744073709551615⟩

def signed32 : WholeRange := ⟨"i32", -2147483648, 2147483647⟩

def signed64 : WholeRange := ⟨"i64", -9223372036854775808, 9223372036854775807⟩

end WholeRange

namespace Json

inductive Mismatch where
  /-- A number with a fraction or too large where a whole one is expected. -/
  | fractional (found : Binary64) (expected : WholeRange)
  | outOfRange (found : Int) (expected : WholeRange)
  /-- A value of another kind. -/
  | otherKind
  | missingField (name : String)
  | repeatedField (name : String)
  /-- An array with more elements than the record has fields. -/
  | tooLong
  | unknownName (name : String)
  | notTimestamp (text : String)
  /-- A value that no document can hold. -/
  | unreadable
  deriving DecidableEq, Repr

def Mismatch.message : Mismatch → String
  | .fractional found expected =>
    let number := String.ofList (Number.jsonLayout.text found)
    s!"invalid type: floating point `{number}`, expected {expected.name}"
  | .outOfRange found expected => s!"invalid value: integer `{found}`, expected {expected.name}"
  | .otherKind => "invalid type"
  | .missingField name => s!"missing field `{name}`"
  | .repeatedField name => s!"duplicate field `{name}`"
  | .tooLong => "trailing characters"
  | .unknownName name => s!"unknown variant `{name}`"
  | .notTimestamp text => s!"invalid timestamp `{text}`"
  | .unreadable => "unreadable value"

abbrev Read (α : Type) := Draft → Except Mismatch α

def readText : Read String
  | .string s => .ok s
  | _ => .error .otherKind

def readBool : Read Bool
  | .bool b => .ok b
  | _ => .error .otherKind

def readWhole (range : WholeRange) : Read Int
  | .number (.integer n) =>
    if range.least ≤ n && n ≤ range.greatest then .ok n else .error (.outOfRange n range)
  | .number (.real x) => .error (.fractional x range)
  | _ => .error .otherKind

def readNat (range : WholeRange) : Read Nat := fun doc =>
  (readWhole range doc).map Int.toNat

def readOptional {α : Type} (read : Read α) : Read (Option α)
  | .null => .ok none
  | doc => (read doc).map some

def readItems {α : Type} (read : Read α) : List Draft → Except Mismatch (List α)
  | [] => .ok []
  | doc :: rest => do
    let value ← read doc
    let more ← readItems read rest
    .ok (value :: more)

def readList {α : Type} (read : Read α) : Read (List α)
  | .array items => readItems read items
  | _ => .error .otherKind

def readEntries {α : Type} (read : Read α) :
    List (String × Draft) → Except Mismatch (List (String × α))
  | [] => .ok []
  | (key, doc) :: rest => do
    let value ← read doc
    let more ← readEntries read rest
    .ok ((key, value) :: more)

def readDict {α : Type} (read : Read α) : Read (Dict α)
  | .object fields => (readEntries read fields).map Dict.ofList
  | _ => .error .otherKind

/-- Reads one of several names, which may also be the only key of an object
with the value null. -/
def readName {α : Type} (ofName? : String → Option α) : Read α := fun doc =>
  let name? := match doc with
    | .string s => some s
    | .object [(s, .null)] => some s
    | _ => none
  match name? with
  | none => .error .otherKind
  | some name =>
    match ofName? name with
    | some value => .ok value
    | none => .error (.unknownName name)

/-- What a document holds for a field. -/
inductive Slot where
  | given (value : Draft)
  /-- An object without the field. -/
  | unnamed (field : String)
  /-- An array that ends before the field. -/
  | beyond (field : String)

def firstRepeated? : List String → Option String
  | [] => none
  | name :: rest => if rest.contains name then some name else firstRepeated? rest

/-- What a document holds for the fields of a record. -/
def slots (names : List String) : Draft → Except Mismatch (String → Slot)
  | .object fields =>
    match firstRepeated? ((fields.map (·.1)).filter names.contains) with
    | some name => .error (.repeatedField name)
    | none => .ok fun name =>
      match fields.lookup name with
      | some value => .given value
      | none => .unnamed name
  | .array items =>
    if names.length < items.length then .error .tooLong
    else .ok fun name =>
      match (names.zip items).lookup name with
      | some value => .given value
      | none => .beyond name
  | _ => .error .otherKind

namespace Slot

variable {α : Type}

def required (read : Read α) : Slot → Except Mismatch α
  | .given doc => read doc
  | .unnamed name | .beyond name => .error (.missingField name)

def withDefault (default : α) (read : Read α) : Slot → Except Mismatch α
  | .given doc => read doc
  | .unnamed _ | .beyond _ => .ok default

/-- A field that may be null, and that an object may lack. -/
def optional (read : Read α) : Slot → Except Mismatch (Option α)
  | .given doc => readOptional read doc
  | .unnamed _ => .ok none
  | .beyond name => .error (.missingField name)

end Slot

/-- A tag and the record without it, all of which has to be readable. -/
def splitTag (tag : String) : Draft → Except Mismatch (String × Draft)
  | .object fields =>
    let others := fields.filter (·.1 != tag)
    if Draft.fieldsReadable others then
      match fields.filter (·.1 == tag) with
      | [(_, .string name)] => .ok (name, .object others)
      | [] => .error (.missingField tag)
      | [_] => .error .otherKind
      | _ => .error (.repeatedField tag)
    else .error .unreadable
  | .array (.string name :: rest) =>
    if Draft.areReadable rest then .ok (name, .array rest) else .error .unreadable
  | _ => .error .otherKind

def decode {α : Type} (read : Read α) (doc : Json) : Except Mismatch α :=
  read (.ofJson doc)

inductive DecodeError where
  /-- The text is no document. -/
  | malformed
  | mismatch (found : Mismatch)
  deriving DecidableEq, Repr

/-- Reads a value out of a text. What the reader passes over has to be well
formed and no more. -/
def decodeText {α : Type} (read : Read α) (text : String) : Except DecodeError α :=
  match Draft.read? text with
  | some draft => (read draft).mapError .mismatch
  | none => .error .malformed

/-- A field that is left out when there is nothing to write. -/
def fieldIf {α : Type} (name : String) (value : Option α) (write : α → Json) :
    List (String × Json) :=
  match value with
  | some v => [(name, write v)]
  | none => []

def ofOption {α : Type} (write : α → Json) : Option α → Json
  | some value => write value
  | none => .null

def ofInt (n : Int) : Json := .number (.integer n)

def ofNat (n : Nat) : Json := ofInt n

def ofTexts (texts : List String) : Json := .array (texts.map .string)

def ofTextDict (texts : Dict String) : Json :=
  .object (texts.entries.map fun entry => (entry.1, .string entry.2))

end Json

end Collate
