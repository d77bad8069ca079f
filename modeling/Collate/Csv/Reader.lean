import Collate.Csv.Records
import Collate.Text.Utf8

/-!
Reading comma-separated values from octets. One byte-order mark at the very
start is passed over. The special symbols are single octets that occur in no
other character, so fields are cut as octets and only then read as text; the
first field that is no text fails the whole reading.
-/

namespace Collate.Csv

def markOfOctet (b : UInt8) : Mark :=
  if b == 0x2C then .comma
  else if b == 0x22 then .quote
  else if b == 0x0D then .carriageReturn
  else if b == 0x0A then .lineFeed
  else .plain

/-- A field that is no text: the record's number from zero and where the reader
began to look for it, the field's number from zero, and the octet of the field
at which it stops being text. -/
structure Fault where
  record : Nat
  line : Nat
  offset : Nat
  field : Nat
  index : Nat
  deriving DecidableEq, Repr

def Fault.message (e : Fault) : String :=
  s!"CSV parse error: record {e.record} (line {e.line}, field: {e.field}, byte: {e.offset}): " ++
    s!"invalid utf-8: invalid UTF-8 in field {e.field} near byte index {e.index}"

/-- The octets after a byte-order mark, and how many were passed. -/
def passMark : Octets → Nat × Octets
  | 0xEF :: 0xBB :: 0xBF :: rest => (3, rest)
  | octets => (0, octets)

def splitOctets (octets : Octets) : List (Record UInt8) :=
  let (passed, rest) := passMark octets
  split markOfOctet passed rest

/-- Reads fields as text, the first of them having the given number. -/
def decodeFields (record : Nat) (place : Record UInt8) (field : Nat) :
    List Octets → Except Fault (List String)
  | [] => .ok []
  | octets :: rest =>
    match Text.Utf8.toText octets with
    | .error e => .error ⟨record, place.line, place.offset, field, e.index⟩
    | .ok text => (decodeFields record place (field + 1) rest).map (text :: ·)

def decodeRecords (record : Nat) : List (Record UInt8) → Except Fault (List (List String))
  | [] => .ok []
  | r :: rest =>
    match decodeFields record r 0 r.fields with
    | .error e => .error e
    | .ok fields => (decodeRecords (record + 1) rest).map (fields :: ·)

def readRecords (octets : Octets) : Except Fault (List (List String)) :=
  decodeRecords 0 (splitOctets octets)

end Collate.Csv
