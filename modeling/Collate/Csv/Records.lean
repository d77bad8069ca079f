/-!
Splitting comma-separated values into records. The splitter takes one symbol at
a time and works on any alphabet in which the four special symbols can be told:
the comma, the quotation mark and the two line ends. A quotation mark opens a
quoted field only at the field's start; inside, it is written twice; after the
closing one anything up to the next comma or line end is taken as it stands.
Line ends between records are skipped, so there are no empty records.
-/

namespace Collate.Csv

/-- What a symbol means to the splitter. -/
inductive Mark where
  | comma
  | quote
  | carriageReturn
  | lineFeed
  | plain
  deriving DecidableEq, Repr

def Mark.endsLine : Mark → Bool
  | .carriageReturn | .lineFeed => true
  | _ => false

/-- A record: where the reader stood when it began to look for it, as symbols
passed and as a line, and its fields. -/
structure Record (α : Type) where
  offset : Nat
  line : Nat
  fields : List (List α)
  deriving DecidableEq, Repr

inductive Spot where
  /-- Before the record, line ends being skipped. -/
  | between
  /-- At the start of a field. -/
  | fieldStart
  /-- Inside an unquoted field, or past the closing quotation mark. -/
  | field
  /-- Inside a quoted field. -/
  | quoted
  /-- After a quotation mark inside a quoted field. -/
  | quoteSeen
  deriving DecidableEq, Repr

/-- The splitter between two symbols. Lists under way are kept in reverse. -/
structure Splitter (α : Type) where
  spot : Spot
  offset : Nat
  line : Nat
  startOffset : Nat
  startLine : Nat
  field : List α
  fields : List (List α)
  records : List (Record α)

namespace Splitter

variable {α : Type}

/-- The splitter after `offset` symbols of no account. -/
def start (offset : Nat) : Splitter α :=
  ⟨.between, offset, 1, 0, 1, [], [], []⟩

def endField (s : Splitter α) : Splitter α :=
  { s with spot := .fieldStart, field := [], fields := s.field.reverse :: s.fields }

/-- Ends the record under way. The next one is looked for from here. -/
def endRecord (s : Splitter α) : Splitter α :=
  { s with
    spot := .between
    startOffset := s.offset
    startLine := s.line
    field := []
    fields := []
    records := ⟨s.startOffset, s.startLine, (s.field.reverse :: s.fields).reverse⟩ :: s.records }

def keep (s : Splitter α) (a : α) : Splitter α :=
  { s with spot := .field, field := a :: s.field }

def count (s : Splitter α) (mark : Mark) : Splitter α :=
  { s with offset := s.offset + 1, line := if mark = .lineFeed then s.line + 1 else s.line }

def outside (s : Splitter α) (mark : Mark) (a : α) : Splitter α :=
  match mark with
  | .comma => s.endField
  | .carriageReturn | .lineFeed => s.endRecord
  | .quote | .plain => s.keep a

def atStart (s : Splitter α) (mark : Mark) (a : α) : Splitter α :=
  if mark = .quote then { s with spot := .quoted } else s.outside mark a

def take (s : Splitter α) (mark : Mark) (a : α) : Splitter α :=
  match s.spot with
  | .between => if mark.endsLine then s else s.atStart mark a
  | .fieldStart => s.atStart mark a
  | .field => s.outside mark a
  | .quoted =>
    if mark = .quote then { s with spot := .quoteSeen }
    else { s with field := a :: s.field }
  | .quoteSeen =>
    if mark = .quote then { s with spot := .quoted, field := a :: s.field }
    else s.outside mark a

def step (markOf : α → Mark) (s : Splitter α) (a : α) : Splitter α :=
  (s.count (markOf a)).take (markOf a) a

def finish (s : Splitter α) : List (Record α) :=
  match s.spot with
  | .between => s.records.reverse
  | _ => s.endRecord.records.reverse

end Splitter

/-- The records of a sequence of symbols of which `offset` more came before. -/
def split {α : Type} (markOf : α → Mark) (offset : Nat) (symbols : List α) : List (Record α) :=
  (symbols.foldl (Splitter.step markOf) (Splitter.start offset)).finish

end Collate.Csv
