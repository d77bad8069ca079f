import Collate.Json.Writer

/-!
Schemas of documents. A schema says what values a document may hold; checking
lists everything that is wrong, each with the pointer to the value. Inside an
object the missing fields come first, then the faults of the known fields, and
last the fields that should not be there.
-/

namespace Collate

def Binary64.quotient (x : Binary64) : Int × Nat :=
  let (num, den) := x.size.quotient
  (if x.negative then -(num : Int) else num, den)

namespace Number

def isWhole : Number → Bool
  | .integer _ => true
  | .real x => x.quotient.1.natAbs % x.quotient.2 == 0

def isBelow (x : Number) (n : Int) : Bool :=
  match x with
  | .integer m => m < n
  | .real x => x.quotient.1 < n * x.quotient.2

end Number

/-- What values a document may hold. -/
inductive Schema where
  /-- A text of at least so many characters. -/
  | text (least : Nat)
  /-- A text or null. -/
  | nullableText
  /-- One text only. -/
  | constant (value : String)
  /-- One of some texts. -/
  | choice (values : List String)
  | truth
  /-- A whole number, perhaps with a least value. -/
  | whole (least : Option Int)
  | list (element : Schema)
  /-- An object of known fields, some of which have to be there. The fields are
  listed in key order. -/
  | record (required : List String) (fields : List (String × Schema))
  /-- An object of any fields. -/
  | map (value : Schema)

namespace Schema

inductive Fault where
  | otherKind (found : Json) (expected : String)
  | missing (field : String)
  | unexpected (fields : List String)
  | notConstant (value : String)
  | notAmong (found : Json) (values : List String)
  | tooShort (found : Json) (least : Nat)
  | tooSmall (found : Json) (least : Int)

def quoted (text : String) : String := (Json.string text).text

/-- Names with commas between them, and a word before the last. -/
def alternatives : List String → String
  | [] => ""
  | [name] => name
  | [name, last] => name ++ " or " ++ last
  | name :: rest => name ++ ", " ++ alternatives rest

def unexpectedText (fields : List String) : String :=
  ", ".intercalate (fields.map fun f => "'" ++ f ++ "'") ++
    (if fields.length = 1 then " was unexpected" else " were unexpected")

def Fault.message : Fault → String
  | .otherKind found expected => s!"{found.text} is not of {expected}"
  | .missing field => s!"{quoted field} is a required property"
  | .unexpected fields =>
    s!"Additional properties are not allowed ({unexpectedText fields})"
  | .notConstant value => s!"{quoted value} was expected"
  | .notAmong found values => s!"{found.text} is not one of {alternatives (values.map quoted)}"
  | .tooShort found least => s!"{found.text} is shorter than {least} character"
  | .tooSmall found least => s!"{found.text} is less than the minimum of {least}"

/-- A fault and where it is. -/
structure Error where
  fault : Fault
  /-- The keys and indexes that lead to the value. -/
  path : List String

def escapeKey (key : String) : String :=
  String.ofList (key.toList.flatMap fun c =>
    if c == '~' then ['~', '0'] else if c == '/' then ['~', '1'] else [c])

def Error.message (e : Error) : String :=
  e.fault.message ++ " at " ++ String.join (e.path.map fun key => "/" ++ escapeKey key)

/-- The fault of a value of another kind, unless it is of the right one. -/
def kindFault (holds : Bool) (found : Json) (name : String) : List Fault :=
  if holds then [] else [.otherKind found ("type " ++ quoted name)]

def isText : Json → Bool
  | .string _ => true
  | _ => false

/-- The fault of a text that is too short. -/
def lengthFault (least : Nat) : Json → List Fault
  | .string s => if s.length < least then [.tooShort (.string s) least] else []
  | _ => []

def isWholeNumber : Json → Bool
  | .number n => n.isWhole
  | _ => false

def leastFault (least : Option Int) : Json → List Fault
  | .number n =>
    match least with
    | some m => if n.isBelow m then [.tooSmall (.number n) m] else []
    | none => []
  | _ => []

def isAmong (values : List String) : Json → Bool
  | .string s => values.contains s
  | _ => false

def atPath (path : List String) (faults : List Fault) : List Error :=
  faults.map fun fault => ⟨fault, path⟩

/-- The fields of an object that are not among some names, in key order. -/
def unknownFields (names : List String) (fields : List (String × Json)) : List String :=
  (fields.map (·.1)).filter fun key => !names.contains key

mutual

/-- Everything that is wrong with a document at a place. -/
def check (path : List String) : Schema → Json → List Error
  | .text least, doc =>
    atPath path (kindFault (isText doc) doc "string" ++ lengthFault least doc)
  | .nullableText, doc =>
    atPath path <| match doc with
      | .null | .string _ => []
      | _ => [.otherKind doc "types \"null\", \"string\""]
  | .constant value, doc =>
    atPath path (kindFault (isText doc) doc "string" ++
      if isAmong [value] doc then [] else [.notConstant value])
  | .choice values, doc =>
    atPath path (kindFault (isText doc) doc "string" ++
      if isAmong values doc then [] else [.notAmong doc values])
  | .truth, doc =>
    atPath path <| match doc with
      | .bool _ => []
      | _ => kindFault false doc "boolean"
  | .whole least, doc =>
    atPath path (kindFault (isWholeNumber doc) doc "integer" ++ leastFault least doc)
  | .list element, doc =>
    match doc with
    | .array items =>
      items.zipIdx.flatMap fun (item, n) => element.check (path ++ [toString n]) item
    | _ => atPath path (kindFault false doc "array")
  | .record required fields, doc =>
    match doc with
    | .object given =>
      let missing := required.filter fun key => (given.lookup key).isNone
      let unknown := unknownFields (fields.map (·.1)) given
      atPath path (missing.map .missing) ++ checkFields path given fields ++
        atPath path (if unknown.isEmpty then [] else [.unexpected unknown])
    | _ => atPath path (kindFault false doc "object")
  | .map value, doc =>
    match doc with
    | .object given => given.flatMap fun (key, v) => value.check (path ++ [key]) v
    | _ => atPath path (kindFault false doc "object")

def checkFields (path : List String) (given : List (String × Json)) :
    List (String × Schema) → List Error
  | [] => []
  | (key, schema) :: rest =>
    (match given.lookup key with
      | some v => schema.check (path ++ [key]) v
      | none => []) ++ checkFields path given rest

end

end Schema

end Collate
