import Collate.Text.Blank
import Collate.Time.Timestamp

/-!
Reading points in time. A date and a time of day with seconds stand apart by the
letter T or one blank, and an offset from universal time follows. Blanks are
allowed between the parts; a second may have decimals, of which nine count, and
the sixtieth second is a leap second.
-/

namespace Collate.Time.Reader

def skipBlanks (text : List Char) : List Char :=
  text.dropWhile Text.isBlank

def ofDigits (digits : List Char) : Nat :=
  digits.foldl (fun n c => n * 10 + (c.toNat - 48)) 0

/-- A number of at least one digit, of at most `width` if that is given. -/
def number (width : Option Nat) (text : List Char) : Option (Nat × List Char) :=
  let digits := text.takeWhile Char.isDigit
  let digits := match width with
    | some w => digits.take w
    | none => digits
  if digits.isEmpty then none else some (ofDigits digits, text.drop digits.length)

/-- A number of one or two digits in a range, blanks before it allowed. -/
def twoDigits (least greatest : Nat) (text : List Char) : Option (Nat × List Char) := do
  let (n, rest) ← number (some 2) (skipBlanks text)
  if least ≤ n && n ≤ greatest then some (n, rest) else none

def mark (c : Char) (text : List Char) : Option (List Char) :=
  match skipBlanks text with
  | d :: rest => if d = c then some rest else none
  | [] => none

/-- A year: four digits at most, any number of them after a sign. -/
def year (text : List Char) : Option (Int × List Char) :=
  match skipBlanks text with
  | '-' :: rest => (number none rest).map fun (n, rest) => (-(n : Int), rest)
  | '+' :: rest => (number none rest).map fun (n, rest) => ((n : Int), rest)
  | text => (number (some 4) text).map fun (n, rest) => ((n : Int), rest)

/-- The decimals of a second in nanoseconds, none of them needed. -/
def fraction (text : List Char) : Option (Nat × List Char) :=
  match text with
  | '.' :: rest => do
    let (n, after) ← number (some 9) rest
    let count := rest.length - after.length
    some (n * Nat.pow 10 (9 - count), after.dropWhile Char.isDigit)
  | _ => some (0, text)

/-- A colon or a blank, as they may stand between hours and minutes. -/
def separates (c : Char) : Bool :=
  c == ':' || Text.isBlank c

/-- Two digits, the first one at most `first`. -/
def pair (first : Char) : List Char → Option (Nat × List Char)
  | a :: b :: rest =>
    if a.isDigit && b.isDigit && a ≤ first then some (ofDigits [a, b], rest) else none
  | _ => none

/-- Hours and minutes of an offset, in seconds. -/
def offsetSize (text : List Char) : Option (Int × List Char) := do
  let (hours, rest) ← pair '9' text
  let (minutes, rest) ← pair '5' (rest.dropWhile separates)
  some (((hours * 3600 + minutes * 60 : Nat) : Int), rest)

def offset (text : List Char) : Option (Int × List Char) :=
  if (text.take 3).map Char.toUpper == ['U', 'T', 'C'] then some (0, text.drop 3)
  else match text with
    | 'Z' :: rest | 'z' :: rest => some (0, rest)
    | '+' :: rest => offsetSize rest
    | '-' :: rest | '\u2212' :: rest => (offsetSize rest).map fun (n, rest) => (-n, rest)
    | _ => none

def date (text : List Char) : Option (Date × List Char) := do
  let (y, text) ← year text
  let text ← mark '-' text
  let (m, text) ← twoDigits 1 12 text
  let text ← mark '-' text
  let (d, text) ← twoDigits 1 31 text
  let found : Date := ⟨y, m, d⟩
  if found.isValid then some (found, text) else none

/-- What stands between a date and a time of day. -/
def between (text : List Char) : Option (List Char) :=
  match text with
  | 't' :: rest | 'T' :: rest | ' ' :: rest => some rest
  | _ => none

/-- A time of day as seconds and nanoseconds; the sixtieth second is a second
that takes twice as long. -/
def timeOfDay (text : List Char) : Option (Int × Nat × List Char) := do
  let (hour, text) ← twoDigits 0 23 text
  let text ← mark ':' text
  let (minute, text) ← twoDigits 0 59 text
  let text ← mark ':' text
  let (second, text) ← twoDigits 0 60 text
  let (nanos, text) ← fraction text
  let seconds : Nat := hour * 3600 + minute * 60 + min second 59
  let leap := if second = 60 then Timestamp.nanosPerSecond else 0
  some ((seconds : Int), nanos + leap, text)

end Reader

def Timestamp.read? (text : String) : Option Timestamp := do
  let (date, rest) ← Reader.date text.toList
  let rest ← Reader.between rest
  let (seconds, nanos, rest) ← Reader.timeOfDay rest
  let (offset, rest) ← Reader.offset (Reader.skipBlanks rest)
  if !(Reader.skipBlanks rest).isEmpty || secondsPerDay ≤ offset.natAbs then none
  else
    let total := date.toDays * secondsPerDay + seconds - offset
    let year := (Date.ofDays (total / secondsPerDay)).year
    if Date.firstYear ≤ year && year ≤ Date.lastYear then some ⟨total, nanos⟩ else none

end Collate.Time
