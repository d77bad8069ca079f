import Collate.Json.Reader
import Collate.Json.Writer
import Collate.Text.Blank

/-!
Extraction payloads. A payload is JSON text of any shape; a blank one counts as
an empty result. Every key of an object stands once, with its last value at the
place of its first occurrence, so the order of columns follows the document.
-/

namespace Collate

namespace Json

def isScalar : Json → Bool
  | .array _ | .object _ => false
  | _ => true

/-- Null, the empty array and the empty object hold nothing. -/
def isVoid : Json → Bool
  | .null | .array [] | .object [] => true
  | _ => false

/-- The text of a value in a table cell: nothing for null, strings bare,
anything else as JSON text. -/
def cell : Json → String
  | .null => ""
  | .string s => s
  | other => other.text

end Json

inductive PayloadError where
  | malformed (error : Json.ReadError)
  deriving DecidableEq, Repr

def PayloadError.message : PayloadError → String
  | .malformed e => s!"Malformed extraction result: {e.message}"

def readPayload (payload : String) : Except PayloadError Json :=
  if Text.isBlankText payload then .ok .null
  else match Json.read payload with
    | .ok doc => .ok doc.unify
    | .error e => .error (.malformed e)

end Collate
