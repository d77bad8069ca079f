import Collate.Workbook.Markup

/-!
Attributes of a tag. What is no attribute is passed over: a name without a
value, a value without quotation marks, a second value for a name that had one.
The last two end at the next blank, quotation marks or not, so that the rest of
a repeated value with blanks in it is read as attributes. Values are taken as
they are written.
-/

namespace Collate.Workbook

structure Attribute where
  name : List Char
  value : List Char
  deriving DecidableEq, Repr

inductive AttributePlace where
  | gap
  | name (done : List Char)
  | afterName (name : List Char)
  /-- After the equals sign of an attribute. -/
  | beforeValue (name : List Char)
  | value (name : List Char) (quote : Char) (done : List Char)
  /-- Inside something that does not count, up to the next blank. -/
  | passedOver
  deriving DecidableEq, Repr

/-- The reader between two characters: the names met, and the attributes, last
first. -/
structure AttributeReader where
  place : AttributePlace
  names : List (List Char)
  done : List Attribute
  deriving DecidableEq, Repr

namespace AttributeReader

/-- Takes the equals sign after a name. What follows a name that was there
before does not count. -/
def equals (r : AttributeReader) (name : List Char) : AttributeReader :=
  if r.names.contains name then { r with place := .passedOver }
  else { r with place := .beforeValue name, names := name :: r.names }

def step (r : AttributeReader) (c : Char) : AttributeReader :=
  match r.place with
  | .gap => if isMarkupSpace c then r else { r with place := .name [c] }
  | .name done =>
    if c == '=' then r.equals done.reverse
    else if isMarkupSpace c then { r with place := .afterName done.reverse }
    else { r with place := .name (c :: done) }
  | .afterName name =>
    if c == '=' then r.equals name
    else if isMarkupSpace c then r
    else { r with place := .name [c] }
  | .beforeValue name =>
    if isMarkupSpace c then r
    else if c == '"' || c == '\'' then { r with place := .value name c [] }
    else { r with place := .passedOver }
  | .value name quote done =>
    if c == quote then { r with place := .gap, done := ⟨name, done.reverse⟩ :: r.done }
    else { r with place := .value name quote (c :: done) }
  | .passedOver => if isMarkupSpace c then { r with place := .gap } else r

end AttributeReader

def Tag.attributes (tag : Tag) : List Attribute :=
  (tag.rest.foldl AttributeReader.step ⟨.gap, [], []⟩).done.reverse

def Tag.attribute? (tag : Tag) (name : String) : Option String :=
  (tag.attributes.find? fun a => localName a.name == name.toList).map
    fun a => String.ofList a.value

/-- Whether a name has the given local part. -/
def isNamed (name : List Char) (part : String) : Bool :=
  localName name == part.toList

end Collate.Workbook
