import Collate.Json.Basic

/-!
Reading JSON text. The reader is a machine that takes one character at a time:
a stack of the containers that are still open, and a mode that says what may
come next. It never looks ahead, so the text before a point decides the state
there, and the first fault is the one reported. Positions are lines and octet
columns; the column of a fault is that of the octet that shows it, or the
length of the last line when the text ends too early.
-/

namespace Collate.Json

inductive Fault where
  | eofInValue
  | eofInArray
  | eofInObject
  | eofInString
  | expectedValue
  | expectedWord
  | expectedColon
  | expectedArrayEnd
  | expectedObjectEnd
  | keyNotString
  | trailingComma
  | trailingCharacters
  | tooDeep
  | invalidNumber
  | numberTooLarge
  | invalidEscape
  | controlCharacter
  | loneSurrogate
  | unfinishedPair
  deriving DecidableEq, Repr

def Fault.message : Fault → String
  | .eofInValue => "EOF while parsing a value"
  | .eofInArray => "EOF while parsing a list"
  | .eofInObject => "EOF while parsing an object"
  | .eofInString => "EOF while parsing a string"
  | .expectedValue => "expected value"
  | .expectedWord => "expected ident"
  | .expectedColon => "expected `:`"
  | .expectedArrayEnd => "expected `,` or `]`"
  | .expectedObjectEnd => "expected `,` or `\x7d`"
  | .keyNotString => "key must be a string"
  | .trailingComma => "trailing comma"
  | .trailingCharacters => "trailing characters"
  | .tooDeep => "recursion limit exceeded"
  | .invalidNumber => "invalid number"
  | .numberTooLarge => "number out of range"
  | .invalidEscape => "invalid escape"
  | .controlCharacter => "control character (\\u0000-\\u001F) found while parsing a string"
  | .loneSurrogate => "lone leading surrogate in hex escape"
  | .unfinishedPair => "unexpected end of hex escape"

/-- A place in a text: the line, from one, and the octets of it passed. -/
structure Position where
  line : Nat
  column : Nat
  deriving DecidableEq, Repr

/-- The place after `octets` octets of a character. A line feed opens the next
line. -/
def Position.advance (p : Position) (c : Char) (octets : Nat) : Position :=
  if c == '\n' then ⟨p.line + 1, 0⟩ else ⟨p.line, p.column + octets⟩

def Position.pass (p : Position) (c : Char) : Position :=
  p.advance c c.utf8Size

/-- The place of a character's first octet. -/
def Position.upon (p : Position) (c : Char) : Position :=
  p.advance c 1

structure ReadError where
  fault : Fault
  place : Position
  deriving DecidableEq, Repr

def ReadError.message (e : ReadError) : String :=
  s!"{e.fault.message} at line {e.place.line} column {e.place.column}"

/-- A container that is still open, with what it holds so far, last first. -/
inductive Frame where
  | array (items : List Json)
  | object (fields : List (String × Json))
  /-- An object whose next value, under the given key, is being read. -/
  | field (fields : List (String × Json)) (key : String)

/-- Where in an escape sequence the reader is. -/
inductive Escape where
  /-- Outside of escapes. -/
  | plain
  /-- After a backslash. -/
  | backslash
  /-- Inside the four octets of a code unit: how many are missing, the digits so
  far unless one was no digit, and the high surrogate that came before. -/
  | unit (missing : Nat) (code : Option Nat) (high : Option Nat)
  /-- After a high surrogate, where a backslash has to follow. -/
  | pair (high : Nat)
  /-- After a high surrogate and a backslash. -/
  | pairBackslash (high : Nat)

/-- What may come next. -/
inductive Mode where
  | value
  /-- After an opening bracket: a value or the closing bracket. -/
  | arrayOpen
  /-- After a comma in an array. -/
  | arrayNext
  /-- After an element. -/
  | arrayEnd
  /-- After an opening brace: a key or the closing brace. -/
  | objectOpen
  /-- After a comma in an object. -/
  | objectNext
  /-- After a key. -/
  | colon (key : String)
  /-- After a field. -/
  | objectEnd
  /-- Inside a string, its characters so far in reverse. -/
  | string (isKey : Bool) (done : List Char) (escape : Escape)
  /-- Inside a word such as `true`, with the letters still to come. -/
  | word (rest : List Char) (result : Json)
  | number (literal : Number.Literal)
  /-- After the document. -/
  | finished (result : Json)

/-- The reader between two characters. -/
structure State where
  stack : List Frame
  mode : Mode
  place : Position

def State.start : State := ⟨[], .value, ⟨1, 0⟩⟩

/-- Blanks allowed between the parts of a document. -/
def isSpace (c : Char) : Bool :=
  c == ' ' || c == '\t' || c == '\n' || c == '\r'

/-- Containers that may be open at once. -/
def depthLimit : Nat := 127

def State.give (s : State) (value : Json) : State :=
  match s.stack with
  | [] => { s with mode := .finished value }
  | .array items :: rest => { s with stack := .array (value :: items) :: rest, mode := .arrayEnd }
  | .field fields key :: rest =>
    { s with stack := .object ((key, value) :: fields) :: rest, mode := .objectEnd }
  | .object _ :: _ => { s with mode := .finished value }

def State.close (s : State) : State :=
  match s.stack with
  | .array items :: rest => { s with stack := rest }.give (.array items.reverse)
  | .object fields :: rest => { s with stack := rest }.give (.object fields.reverse)
  | _ => s

def State.into (s : State) (c : Char) (mode : Mode) : State :=
  { s with mode, place := s.place.pass c }

def State.refuse {α : Type} (s : State) (c : Char) (fault : Fault) : Except ReadError α :=
  .error ⟨fault, s.place.upon c⟩

/-- Opens a container, unless too many are open. -/
def State.open (s : State) (c : Char) (frame : Frame) (mode : Mode) : Except ReadError State :=
  if s.stack.length < depthLimit then
    .ok { stack := frame :: s.stack, mode, place := s.place.pass c }
  else s.refuse c .tooDeep

def State.begin (s : State) (c : Char) : Except ReadError State :=
  match c with
  | '"' => .ok (s.into c (.string false [] .plain))
  | '[' => s.open c (.array []) .arrayOpen
  | '{' => s.open c (.object []) .objectOpen
  | 't' => .ok (s.into c (.word ['r', 'u', 'e'] (.bool true)))
  | 'f' => .ok (s.into c (.word ['a', 'l', 's', 'e'] (.bool false)))
  | 'n' => .ok (s.into c (.word ['u', 'l', 'l'] .null))
  | _ =>
    match Number.Literal.start? c with
    | some literal => .ok (s.into c (.number literal))
    | none => s.refuse c .expectedValue

def State.after (s : State) (c : Char) : Except ReadError State :=
  if isSpace c then .ok (s.into c s.mode)
  else match s.mode with
    | .arrayEnd =>
      if c == ',' then .ok (s.into c .arrayNext)
      else if c == ']' then .ok { s with place := s.place.pass c }.close
      else s.refuse c .expectedArrayEnd
    | .objectEnd =>
      if c == ',' then .ok (s.into c .objectNext)
      else if c == '}' then .ok { s with place := s.place.pass c }.close
      else s.refuse c .expectedObjectEnd
    | _ => s.refuse c .trailingCharacters

/-- Ends a string: a key waits for its colon, a value is complete. -/
def State.endString (s : State) (isKey : Bool) (done : List Char) : State :=
  let content := String.ofList done.reverse
  if isKey then { s with mode := .colon content } else s.give (.string content)

def simpleEscape? (c : Char) : Option Char :=
  match c with
  | '"' => some '"'
  | '\\' => some '\\'
  | '/' => some '/'
  | 'b' => some '\x08'
  | 'f' => some '\x0C'
  | 'n' => some '\n'
  | 'r' => some '\r'
  | 't' => some '\t'
  | _ => none

def hexValue? (c : Char) : Option Nat :=
  if '0' ≤ c && c ≤ '9' then some (c.toNat - 48)
  else if 'a' ≤ c && c ≤ 'f' then some (c.toNat - 87)
  else if 'A' ≤ c && c ≤ 'F' then some (c.toNat - 55)
  else none

/-- What a complete code unit means: a character, or the first half of a
pair. -/
inductive UnitMeaning where
  | char (c : Char)
  | high (code : Nat)
  | lone

/-- Joins a code unit with the high surrogate before it, if there was one. -/
def unitMeaning (high : Option Nat) (code : Nat) : UnitMeaning :=
  match high with
  | none =>
    if 0xDC00 ≤ code && code ≤ 0xDFFF then .lone
    else if 0xD800 ≤ code && code ≤ 0xDBFF then .high code
    else .char (Char.ofNat code)
  | some first =>
    if 0xDC00 ≤ code && code ≤ 0xDFFF then
      .char (Char.ofNat ((first - 0xD800) * 1024 + (code - 0xDC00) + 0x10000))
    else .lone

/-- Takes a character inside a code unit. The unit is four octets long whatever
they are, so it may end inside a character. -/
def State.stepUnit (s : State) (isKey : Bool) (done : List Char) (missing : Nat)
    (code : Option Nat) (high : Option Nat) (c : Char) : Except ReadError State :=
  let taken := min missing c.utf8Size
  let place := s.place.advance c taken
  let code := match code, hexValue? c with
    | some n, some d => some (n * 16 + d)
    | _, _ => none
  if taken < missing then
    .ok { s with place, mode := .string isKey done (.unit (missing - taken) code high) }
  else match code with
    | none => .error ⟨.invalidEscape, place⟩
    | some code =>
      match unitMeaning high code with
      | .char c => .ok { s with place, mode := .string isKey (c :: done) .plain }
      | .high first => .ok { s with place, mode := .string isKey done (.pair first) }
      | .lone => .error ⟨.loneSurrogate, place⟩

def State.stepString (s : State) (isKey : Bool) (done : List Char) (escape : Escape)
    (c : Char) : Except ReadError State :=
  match escape with
  | .plain =>
    if c == '"' then .ok ({ s with place := s.place.pass c }.endString isKey done)
    else if c == '\\' then .ok (s.into c (.string isKey done .backslash))
    else if c.toNat < 0x20 then s.refuse c .controlCharacter
    else .ok (s.into c (.string isKey (c :: done) .plain))
  | .backslash =>
    if c == 'u' then .ok (s.into c (.string isKey done (.unit 4 (some 0) none)))
    else match simpleEscape? c with
      | some e => .ok (s.into c (.string isKey (e :: done) .plain))
      | none => s.refuse c .invalidEscape
  | .unit missing code high => s.stepUnit isKey done missing code high c
  | .pair high =>
    if c == '\\' then .ok (s.into c (.string isKey done (.pairBackslash high)))
    else s.refuse c .unfinishedPair
  | .pairBackslash high =>
    if c == 'u' then .ok (s.into c (.string isKey done (.unit 4 (some 0) (some high))))
    else s.refuse c .unfinishedPair

/-- Takes a character inside a number. The character after a number belongs to
what follows it. -/
def State.stepNumber (s : State) (literal : Number.Literal) (c : Char) :
    Except ReadError State :=
  match literal.feed c with
  | .more literal => .ok (s.into c (.number literal))
  | .invalid => s.refuse c .invalidNumber
  | .tooLarge => s.refuse c .numberTooLarge
  | .ended =>
    match literal.value? with
    | some n => (s.give (.number n)).after c
    | none => .error ⟨.numberTooLarge, s.place⟩

def State.step (s : State) (c : Char) : Except ReadError State :=
  match s.mode with
  | .string isKey done escape => s.stepString isKey done escape c
  | .number literal => s.stepNumber literal c
  | .word [] result => (s.give result).after c
  | .word (expected :: rest) result =>
    if c == expected then
      match rest with
      | [] => .ok ({ s with place := s.place.pass c }.give result)
      | _ => .ok (s.into c (.word rest result))
    else s.refuse c .expectedWord
  | .arrayEnd | .objectEnd | .finished _ => s.after c
  | .value => if isSpace c then .ok (s.into c s.mode) else s.begin c
  | .arrayOpen =>
    if isSpace c then .ok (s.into c s.mode)
    else if c == ']' then .ok { s with place := s.place.pass c }.close
    else s.begin c
  | .arrayNext =>
    if isSpace c then .ok (s.into c s.mode)
    else if c == ']' then s.refuse c .trailingComma
    else s.begin c
  | .objectOpen =>
    if isSpace c then .ok (s.into c s.mode)
    else if c == '}' then .ok { s with place := s.place.pass c }.close
    else if c == '"' then .ok (s.into c (.string true [] .plain))
    else s.refuse c .keyNotString
  | .objectNext =>
    if isSpace c then .ok (s.into c s.mode)
    else if c == '}' then s.refuse c .trailingComma
    else if c == '"' then .ok (s.into c (.string true [] .plain))
    else s.refuse c .keyNotString
  | .colon key =>
    if isSpace c then .ok (s.into c s.mode)
    else if c == ':' then
      match s.stack with
      | .object fields :: rest =>
        .ok { stack := .field fields key :: rest, mode := .value, place := s.place.pass c }
      | _ => .ok (s.into c .value)
    else s.refuse c .expectedColon

def State.finish (s : State) : Except ReadError Json :=
  match s.mode with
  | .finished result => .ok result
  | .number literal =>
    if literal.complete then
      match literal.value? with
      | none => .error ⟨.numberTooLarge, s.place⟩
      | some n =>
        match s.give (.number n) with
        | ⟨_, .finished result, _⟩ => .ok result
        | ⟨_, .arrayEnd, _⟩ => .error ⟨.eofInArray, s.place⟩
        | _ => .error ⟨.eofInObject, s.place⟩
    else .error ⟨.eofInValue, s.place⟩
  | .value | .arrayNext | .objectNext | .word _ _ => .error ⟨.eofInValue, s.place⟩
  | .arrayOpen | .arrayEnd => .error ⟨.eofInArray, s.place⟩
  | .objectOpen | .objectEnd | .colon _ => .error ⟨.eofInObject, s.place⟩
  | .string _ _ _ => .error ⟨.eofInString, s.place⟩

/-- Takes characters one after the other, up to the first fault. -/
def State.run (s : State) : List Char → Except ReadError State
  | [] => .ok s
  | c :: rest =>
    match s.step c with
    | .ok next => next.run rest
    | .error e => .error e

def read (text : String) : Except ReadError Json :=
  match State.start.run text.toList with
  | .ok s => s.finish
  | .error e => .error e

end Collate.Json
