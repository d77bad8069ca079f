import Collate.Text.CaseTable

/-!
Lower-casing of text. Most letters have one lower-case partner of their own.
Two characters are special: the dotted capital I becomes two characters, and
the capital sigma becomes a final sigma when it closes a word. A sigma closes a
word when a letter with case stands before it and none stands after it, marks
and inner punctuation being looked through on both sides.
-/

namespace Collate.Text

/-- The lower-case form of one character, away from any context. -/
def lowerChar (c : Char) : Char :=
  match lowerRuns.find? (·.holds c.toNat) with
  | some run => Char.ofNat (c.toNat + run.shift).toNat
  | none => c

/-- Whether the first character that is not looked through has case. -/
def meetsCased (cs : List Char) : Bool :=
  match cs.find? (fun c => !inRanges caseIgnorableRanges c.toNat) with
  | some c => inRanges casedRanges c.toNat
  | none => false

/-- Lower-cases the characters still to come; `before` holds those already
passed, nearest first. -/
def lowerChars (before : List Char) : List Char → List Char
  | [] => []
  | c :: rest =>
    let image :=
      if c == 'Σ' then
        if meetsCased before && !meetsCased rest then ['ς'] else ['σ']
      else if c == 'İ' then ['i', '\u0307']
      else [lowerChar c]
    image ++ lowerChars (c :: before) rest

def lower (text : String) : String :=
  String.ofList (lowerChars [] text.toList)

/-- The text with the letters A to Z in lower case and all else as it is. -/
def lowerAscii (text : String) : String :=
  String.ofList (text.toList.map Char.toLower)

end Collate.Text
