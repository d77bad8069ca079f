import Collate.Json.Basic
import Collate.Number.Shortest

/-!
Compact JSON text. Nothing is written that the format does not need; in strings
only the quotation mark, the backslash and the control characters are escaped,
all other characters standing for themselves.
-/

namespace Collate

def Number.text : Number → List Char
  | .integer n => if n < 0 then '-' :: Number.digitsOf n.natAbs else Number.digitsOf n.natAbs
  | .real x => Number.jsonLayout.text x

namespace Json

def hexDigit (n : Nat) : Char :=
  Nat.digitChar n

/-- A character as it stands inside a string. -/
def escape (c : Char) : List Char :=
  match c with
  | '"' => ['\\', '"']
  | '\\' => ['\\', '\\']
  | '\x08' => ['\\', 'b']
  | '\x0C' => ['\\', 'f']
  | '\n' => ['\\', 'n']
  | '\r' => ['\\', 'r']
  | '\t' => ['\\', 't']
  | c =>
    if c.toNat < 0x20 then
      ['\\', 'u', '0', '0', hexDigit (c.toNat / 16), hexDigit (c.toNat % 16)]
    else [c]

def quote (text : String) : List Char :=
  '"' :: text.toList.flatMap escape ++ ['"']

mutual

def write : Json → List Char
  | .null => "null".toList
  | .bool true => "true".toList
  | .bool false => "false".toList
  | .number n => n.text
  | .string s => quote s
  | .array items => '[' :: writeItems items ++ [']']
  | .object fields => '{' :: writeFields fields ++ ['}']

def writeItems : List Json → List Char
  | [] => []
  | [item] => item.write
  | item :: rest => item.write ++ ',' :: writeItems rest

def writeFields : List (String × Json) → List Char
  | [] => []
  | [(key, value)] => quote key ++ ':' :: value.write
  | (key, value) :: rest => quote key ++ ':' :: value.write ++ ',' :: writeFields rest

end

/-- The compact text of a document. -/
def text (doc : Json) : String :=
  String.ofList doc.write

end Json

end Collate
