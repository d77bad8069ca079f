/-!
A reader of markup that reports what it meets: opening, empty and closing tags
with their names, character data, and nothing for the rest. It takes one
character at a time and keeps the names of the open elements, since a closing
tag has to match the innermost one; elements left open at the end are no fault.
References in character data are passed over without becoming text. Whatever
was met before a fault stays reported.
-/

namespace Collate.Workbook

inductive MarkupFault where
  | unclosedTag
  | unclosedComment
  | unclosedCharacterData
  | unclosedInstruction
  | unclosedDoctype
  | unknownMarkup
  | unclosedReference
  | namelessDoctype
  | mismatchedEnd (expected found : String)
  | unmatchedEnd (found : String)
  deriving DecidableEq, Repr

def MarkupFault.message : MarkupFault → String
  | .unclosedTag => "syntax error: tag not closed: `>` not found before end of input"
  | .unclosedComment => "syntax error: comment not closed: `-->` not found before end of input"
  | .unclosedCharacterData =>
    "syntax error: CDATA not closed: `]]>` not found before end of input"
  | .unclosedInstruction =>
    "syntax error: processing instruction or xml declaration not closed: " ++
      "`?>` not found before end of input"
  | .unclosedDoctype => "syntax error: DOCTYPE not closed: `>` not found before end of input"
  | .unknownMarkup => "syntax error: unknown or missed symbol in markup"
  | .unclosedReference =>
    "ill-formed document: entity or character reference not closed: " ++
      "`;` not found before end of input"
  | .namelessDoctype =>
    "ill-formed document: `<!DOCTYPE>` declaration does not contain a name of a document type"
  | .mismatchedEnd expected found =>
    s!"ill-formed document: expected `</{expected}>`, but `</{found}>` was found"
  | .unmatchedEnd found =>
    s!"ill-formed document: close tag `</{found}>` does not match any open tag"

def isMarkupSpace (c : Char) : Bool :=
  c == ' ' || c == '\t' || c == '\n' || c == '\r'

/-- A tag: its name and what stands between the name and the end of the tag. -/
structure Tag where
  name : List Char
  rest : List Char
  deriving DecidableEq, Repr

/-- What the reader meets. -/
inductive Event where
  | opened (tag : Tag)
  | emptied (tag : Tag)
  | closed (name : List Char)
  | text (content : List Char)
  /-- A section whose characters stand for themselves. -/
  | verbatim (content : List Char)
  deriving DecidableEq, Repr

/-- The part of a name after its first colon, or all of it. -/
def localName (name : List Char) : List Char :=
  match name.dropWhile (· != ':') with
  | [] => name
  | _ :: rest => rest

def Tag.ofContent (content : List Char) : Tag :=
  ⟨content.takeWhile fun c => !isMarkupSpace c, content.dropWhile fun c => !isMarkupSpace c⟩

/-- Where in a document the reader is. Characters under way are kept in
reverse. -/
inductive Place where
  | text (content : List Char)
  | reference
  /-- After an opening angle bracket. -/
  | tagStart
  /-- Inside an opening or empty tag, perhaps inside a quoted value. -/
  | element (content : List Char) (quote : Option Char)
  /-- Inside a closing tag. -/
  | closing (content : List Char) (quote : Option Char)
  /-- After the exclamation mark. -/
  | bang
  /-- Inside a comment, from the exclamation mark on. -/
  | comment (content : List Char)
  /-- Inside a verbatim section, from the exclamation mark on. -/
  | verbatim (content : List Char)
  /-- Inside a document type, and how many brackets are open in it. -/
  | doctype (content : List Char) (depth : Nat)
  /-- Inside an instruction, from the question mark on. -/
  | instruction (content : List Char)
  | failed (fault : MarkupFault)
  deriving DecidableEq, Repr

/-- The reader between two characters: where it is, the names of the open
elements, innermost first, and what it has met, last first. -/
structure Scanner where
  place : Place
  openNames : List (List Char)
  met : List Event
  deriving DecidableEq, Repr

namespace Scanner

def start : Scanner := ⟨.text [], [], []⟩

def report (s : Scanner) (event : Event) : Scanner :=
  { s with place := .text [], met := event :: s.met }

def fail (s : Scanner) (fault : MarkupFault) : Scanner :=
  { s with place := .failed fault }

/-- Reports character data, if there is any, and goes on elsewhere. -/
def flush (s : Scanner) (content : List Char) (place : Place) : Scanner :=
  match content with
  | [] => { s with place }
  | _ => { s with place, met := .text content.reverse :: s.met }

def endElement (s : Scanner) (content : List Char) : Scanner :=
  match content with
  | '/' :: rest => s.report (.emptied (Tag.ofContent rest.reverse))
  | _ =>
    let tag := Tag.ofContent content.reverse
    { s.report (.opened tag) with openNames := tag.name :: s.openNames }

/-- The name in a closing tag: blanks after it do not count, unless there is
nothing else. -/
def closingName (content : List Char) : List Char :=
  match content.dropWhile isMarkupSpace with
  | [] => content.reverse
  | trimmed => trimmed.reverse

def endClosing (s : Scanner) (content : List Char) : Scanner :=
  let name := closingName content
  match s.openNames with
  | [] => s.fail (.unmatchedEnd (String.ofList name))
  | expected :: rest =>
    if name = expected then { s.report (.closed name) with openNames := rest }
    else s.fail (.mismatchedEnd (String.ofList expected) (String.ofList name))

/-- Takes a character inside a tag: an angle bracket outside of quoted values
ends it. -/
def inTag (c : Char) (quote : Option Char) : Option (Option Char) :=
  match quote with
  | none => if c == '>' then none else if c == '"' || c == '\'' then some (some c) else some none
  | some q => if c == q then some none else some (some q)

/-- Ends a comment, which has to begin with two hyphens. -/
def endComment (s : Scanner) (content : List Char) : Scanner :=
  if "!--".toList.isPrefixOf content.reverse then { s with place := .text [] }
  else s.fail .unclosedComment

def endVerbatim (s : Scanner) (content : List Char) : Scanner :=
  if "![CDATA[".toList.isPrefixOf content.reverse then
    s.report (.verbatim ((content.drop 2).reverse.drop 8))
  else s.fail .unclosedCharacterData

/-- Ends a document type, which has to have a name. -/
def endDoctype (s : Scanner) (content : List Char) : Scanner :=
  let content := content.reverse
  if (content.take 8).map Char.toLower == "!doctype".toList then
    if (content.drop 8).all isMarkupSpace then s.fail .namelessDoctype
    else { s with place := .text [] }
  else s.fail .unclosedDoctype

/-- Takes the character that tells what kind of markup follows. -/
def begin (s : Scanner) (c : Char) : Scanner :=
  match c with
  | '!' => { s with place := .bang }
  | '/' => { s with place := .closing [] none }
  | '?' => { s with place := .instruction ['?'] }
  | '>' => s.endElement []
  | '"' => { s with place := .element ['"'] (some '"') }
  | '\'' => { s with place := .element ['\''] (some '\'') }
  | c => { s with place := .element [c] none }

def step (s : Scanner) (c : Char) : Scanner :=
  match s.place with
  | .text content =>
    if c == '<' then s.flush content .tagStart
    else if c == '&' then s.flush content .reference
    else { s with place := .text (c :: content) }
  | .reference =>
    if c == ';' then { s with place := .text [] }
    else if c == '&' || c == '<' then s.fail .unclosedReference
    else s
  | .tagStart => s.begin c
  | .element content quote =>
    match inTag c quote with
    | none => s.endElement content
    | some quote => { s with place := .element (c :: content) quote }
  | .closing content quote =>
    match inTag c quote with
    | none => s.endClosing content
    | some quote => { s with place := .closing (c :: content) quote }
  | .bang =>
    if c == '-' then { s with place := .comment ['-', '!'] }
    else if c == '[' then { s with place := .verbatim ['[', '!'] }
    else if c == 'D' || c == 'd' then { s with place := .doctype [c, '!'] 0 }
    else s.fail .unknownMarkup
  | .comment content =>
    if c == '>' && 4 < content.length && content.take 2 == ['-', '-'] then s.endComment content
    else { s with place := .comment (c :: content) }
  | .verbatim content =>
    if c == '>' && content.take 2 == [']', ']'] then s.endVerbatim content
    else { s with place := .verbatim (c :: content) }
  | .doctype content depth =>
    if c == '<' then { s with place := .doctype (c :: content) (depth + 1) }
    else if c == '>' then
      match depth with
      | 0 => s.endDoctype content
      | depth + 1 => { s with place := .doctype (c :: content) depth }
    else { s with place := .doctype (c :: content) depth }
  | .instruction content =>
    if c == '>' && content.take 1 == ['?'] then
      if content.length < 2 then s.fail .unclosedInstruction else { s with place := .text [] }
    else { s with place := .instruction (c :: content) }
  | .failed _ => s

def finish (s : Scanner) : Scanner :=
  match s.place with
  | .text content => s.flush content (.text [])
  | .reference => s.fail .unclosedReference
  | .tagStart | .element _ _ | .closing _ _ => s.fail .unclosedTag
  | .bang => s.fail .unknownMarkup
  | .comment _ => s.fail .unclosedComment
  | .verbatim _ => s.fail .unclosedCharacterData
  | .doctype _ _ => s.fail .unclosedDoctype
  | .instruction _ => s.fail .unclosedInstruction
  | .failed _ => s

end Scanner

/-- What a document holds: everything met before its end or its first fault. -/
structure Markup where
  events : List Event
  fault : Option MarkupFault
  deriving DecidableEq, Repr

/-- Reads a document. A byte-order mark in front is passed over. -/
def Markup.read (document : List Char) : Markup :=
  let body := match document with
    | '\uFEFF' :: rest => rest
    | other => other
  let s := (body.foldl Scanner.step Scanner.start).finish
  ⟨s.met.reverse, match s.place with
    | .failed fault => some fault
    | _ => none⟩

end Collate.Workbook
