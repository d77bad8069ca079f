import Collate.Json.Reader

/-!
Documents read loosely. A reader of records passes over the fields it does not
know; what stands there has to be well formed, but need not be anything a
document can hold: it may be half of a surrogate pair, a number too large, or
nested too deeply. A draft keeps such a value as unreadable, so that it is
refused only by a reader that comes to it. The text is cut into marks and
leaves, each leaf is read on its own, and a stack of open containers puts the
values together.
-/

namespace Collate

/-- A document of which some values cannot be read. -/
inductive Draft where
  | null
  | bool (value : Bool)
  | number (value : Number)
  | string (value : String)
  | array (items : List Draft)
  | object (fields : List (String × Draft))
  | unreadable
  deriving Repr, Inhabited, BEq

namespace Draft

mutual

def ofJson : Json → Draft
  | .null => .null
  | .bool b => .bool b
  | .number n => .number n
  | .string s => .string s
  | .array items => .array (ofItems items)
  | .object fields => .object (ofFields fields)

def ofItems : List Json → List Draft
  | [] => []
  | item :: rest => ofJson item :: ofItems rest

def ofFields : List (String × Json) → List (String × Draft)
  | [] => []
  | (key, value) :: rest => (key, ofJson value) :: ofFields rest

end

mutual

def isReadable : Draft → Bool
  | .unreadable => false
  | .array items => areReadable items
  | .object fields => fieldsReadable fields
  | _ => true

def areReadable : List Draft → Bool
  | [] => true
  | item :: rest => item.isReadable && areReadable rest

def fieldsReadable : List (String × Draft) → Bool
  | [] => true
  | (_, value) :: rest => value.isReadable && fieldsReadable rest

end

/-! ## Cutting a text -/

/-- A part of a text. -/
inductive Part where
  /-- A bracket, a brace, a comma or a colon. -/
  | mark (c : Char)
  /-- A string, a number or a word, as it is written. -/
  | leaf (written : List Char)
  deriving DecidableEq, Repr

/-- Characters that are parts of their own. -/
def isMark (c : Char) : Bool :=
  c == '[' || c == ']' || c == '{' || c == '}' || c == ',' || c == ':'

/-- Where in a text the cutter is. Characters under way are kept in reverse. -/
inductive CutPlace where
  | gap
  /-- Inside a leaf without quotation marks. -/
  | bare (done : List Char)
  /-- Inside a string, perhaps after a backslash. -/
  | quoted (done : List Char) (escaped : Bool)
  deriving DecidableEq, Repr

/-- The cutter between two characters: where it is, and the parts so far, last
first. -/
structure Cutter where
  place : CutPlace
  parts : List Part
  deriving DecidableEq, Repr

namespace Cutter

def enter (k : Cutter) (c : Char) : Cutter :=
  if Json.isSpace c then { k with place := .gap }
  else if isMark c then ⟨.gap, .mark c :: k.parts⟩
  else if c == '"' then { k with place := .quoted [c] false }
  else { k with place := .bare [c] }

def step (k : Cutter) (c : Char) : Cutter :=
  match k.place with
  | .gap => k.enter c
  | .bare done =>
    if Json.isSpace c || isMark c || c == '"' then
      { k with parts := .leaf done.reverse :: k.parts }.enter c
    else { k with place := .bare (c :: done) }
  | .quoted done true => { k with place := .quoted (c :: done) false }
  | .quoted done false =>
    if c == '"' then ⟨.gap, .leaf (c :: done).reverse :: k.parts⟩
    else { k with place := .quoted (c :: done) (c == '\\') }

/-- The parts of the text, once it has ended. A string that is still open is a
leaf as far as it goes. -/
def finish (k : Cutter) : List Part :=
  match k.place with
  | .gap => k.parts.reverse
  | .bare done | .quoted done _ => (.leaf done.reverse :: k.parts).reverse

end Cutter

def cut (text : List Char) : List Part :=
  (text.foldl Cutter.step ⟨.gap, []⟩).finish

/-! ## Reading leaves -/

/-- Whether what follows an opening quotation mark is the rest of a string,
whatever its escapes stand for. -/
def closesString : List Char → Bool
  | [] => false
  | '\\' :: 'u' :: a :: b :: c :: d :: rest =>
    [a, b, c, d].all (fun digit => (Json.hexValue? digit).isSome) && closesString rest
  | '\\' :: c :: rest => (Json.simpleEscape? c).isSome && closesString rest
  | c :: rest =>
    if c == '"' then rest.isEmpty
    else c != '\\' && 0x20 ≤ c.toNat && closesString rest

def isString : List Char → Bool
  | '"' :: rest => closesString rest
  | _ => false

/-- Whether a literal goes on to its end, however large its number gets. -/
def endsNumber (literal : Number.Literal) : List Char → Bool
  | [] => literal.complete
  | c :: rest =>
    match literal.feed c with
    | .more literal => endsNumber literal rest
    | .tooLarge => rest.all fun c => (Number.digit? c).isSome
    | .ended | .invalid => false

def isNumber : List Char → Bool
  | [] => false
  | c :: rest =>
    match Number.Literal.start? c with
    | some literal => endsNumber literal rest
    | none => false

def ofLeaf? (written : List Char) : Option Draft :=
  match Json.read (String.ofList written) with
  | .ok value => some (ofJson value)
  | .error _ => if isString written || isNumber written then some .unreadable else none

/-- A key: the outer option is empty when the leaf is no string, the inner one
when the string cannot be read. -/
def keyOfLeaf? (written : List Char) : Option (Option String) :=
  if isString written then
    match Json.read (String.ofList written) with
    | .ok (.string key) => some (some key)
    | _ => some none
  else none

/-! ## Putting values together -/

/-- A container that is still open, with what it holds so far, last first. A
key that cannot be read is missing. -/
inductive Frame where
  | array (items : List Draft)
  | object (fields : List (Option String × Draft))
  /-- An object whose next value, under the given key, is due. -/
  | field (fields : List (Option String × Draft)) (key : Option String)

/-- What has to come next. -/
inductive Due where
  | value
  /-- A value or the end of the array. -/
  | first
  /-- A comma or the end of the container. -/
  | next
  | key
  /-- A key or the end of the object. -/
  | firstKey
  | colon (key : Option String)
  /-- Nothing: the document is complete. -/
  | nothing (document : Draft)

/-- A document under construction. -/
structure Builder where
  stack : List Frame
  due : Due

namespace Builder

def give (stack : List Frame) (value : Draft) : Builder :=
  match stack with
  | .array items :: rest => ⟨.array (value :: items) :: rest, .next⟩
  | .field fields key :: rest => ⟨.object ((key, value) :: fields) :: rest, .next⟩
  | [] | .object _ :: _ => ⟨stack, .nothing value⟩

/-- An object, which cannot be read if one of its keys cannot. -/
def objectOf (fields : List (Option String × Draft)) : Draft :=
  match fields.mapM fun (key?, value) => key?.map fun key => (key, value) with
  | some fields => .object fields
  | none => .unreadable

/-- Gives a container that lies inside of those still open. It cannot be read
if there are too many of them. -/
def close (outer : List Frame) (container : Draft) : Builder :=
  give outer (if outer.length < Json.depthLimit then container else .unreadable)

def begin (stack : List Frame) : Part → Option Builder
  | .leaf written => (ofLeaf? written).map (give stack)
  | .mark '[' => some ⟨.array [] :: stack, .first⟩
  | .mark '{' => some ⟨.object [] :: stack, .firstKey⟩
  | .mark _ => none

def between : List Frame → Part → Option Builder
  | .array items :: outer, .mark ',' => some ⟨.array items :: outer, .value⟩
  | .array items :: outer, .mark ']' => some (close outer (.array items.reverse))
  | .object fields :: outer, .mark ',' => some ⟨.object fields :: outer, .key⟩
  | .object fields :: outer, .mark '}' => some (close outer (objectOf fields.reverse))
  | _, _ => none

def step (b : Builder) (part : Part) : Option Builder :=
  match b.due, part with
  | .first, .mark ']' | .firstKey, .mark '}' => between b.stack part
  | .value, _ | .first, _ => begin b.stack part
  | .next, _ => between b.stack part
  | .key, .leaf written | .firstKey, .leaf written =>
    (keyOfLeaf? written).map fun key => { b with due := .colon key }
  | .colon key, .mark ':' =>
    match b.stack with
    | .object fields :: outer => some ⟨.field fields key :: outer, .value⟩
    | _ => none
  | _, _ => none

def run (b : Builder) : List Part → Option Builder
  | [] => some b
  | part :: rest =>
    match b.step part with
    | some next => next.run rest
    | none => none

end Builder

/-- Reads a document loosely, if it is well formed. -/
def read? (text : String) : Option Draft :=
  match Builder.run ⟨[], .value⟩ (cut text.toList) with
  | some ⟨_, .nothing document⟩ => some document
  | _ => none

end Draft

end Collate
