import Collate.Text.Blank
import Collate.Workbook.Attributes

/-!
The headers of a sheet: the cells of its first row that has an end of its own,
trimmed, blank ones left out. What comes after that row is not looked at, so a
fault there does no harm. A cell either holds its text or the place of a shared
text.
-/

namespace Collate.Workbook

/-- The reader of the first row between two events. -/
structure RowReader where
  inRow : Bool
  /-- The row has ended. -/
  ended : Bool
  /-- What the cell under way says it holds. -/
  kind? : Option String
  inValue : Bool
  /-- What the cell under way holds so far. -/
  value : List Char
  /-- The headers met, last first. -/
  done : List String
  deriving DecidableEq, Repr

/-- The greatest place of a shared text. -/
def greatestPlace : Nat := 18446744073709551615

/-- A number written in decimal digits, perhaps after a plus sign. -/
def place? (text : List Char) : Option Nat :=
  let digits := match text with
    | '+' :: rest => rest
    | other => other
  if digits.isEmpty || !digits.all Char.isDigit then none
  else
    let n := digits.foldl (fun n c => n * 10 + (c.toNat - 48)) 0
    if n ≤ greatestPlace then some n else none

namespace RowReader

def start : RowReader := ⟨false, false, none, false, [], []⟩

/-- The text of the cell under way. A place without a shared text counts as
empty. -/
def cellText (shared : List (List Char)) (r : RowReader) : List Char :=
  if r.kind? = some "s" then
    ((place? (Text.trimChars r.value)).bind fun n => shared[n]?).getD []
  else r.value

def endCell (shared : List (List Char)) (r : RowReader) : RowReader :=
  match Text.trimChars (r.cellText shared) with
  | [] => { r with kind? := none }
  | text => { r with kind? := none, done := String.ofList text :: r.done }

def step (shared : List (List Char)) (r : RowReader) (event : Event) : RowReader :=
  if r.ended then r
  else match event with
    | .opened tag =>
      if isNamed tag.name "row" then { r with inRow := true }
      else if isNamed tag.name "c" && r.inRow then
        { r with kind? := tag.attribute? "t", value := [] }
      else if (isNamed tag.name "v" || isNamed tag.name "t") && r.inRow then
        { r with inValue := true }
      else r
    | .closed name =>
      if isNamed name "row" && r.inRow then { r with ended := true }
      else if isNamed name "v" || isNamed name "t" then { r with inValue := false }
      else if isNamed name "c" && r.inRow then r.endCell shared
      else r
    | .text content => if r.inValue then { r with value := r.value ++ content } else r
    | .emptied _ | .verbatim _ => r

end RowReader

/-- The headers of a sheet. -/
def firstRow (shared : List (List Char)) (sheet : Markup) : Except MarkupFault (List String) :=
  let r := sheet.events.foldl (RowReader.step shared) RowReader.start
  match r.ended, sheet.fault with
  | false, some fault => .error fault
  | _, _ => .ok r.done.reverse

end Collate.Workbook
