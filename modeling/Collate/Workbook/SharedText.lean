import Collate.Workbook.Attributes

/-!
Texts that the cells of a workbook share. A text may be written in several runs,
which are put together; an empty element stands for the empty text.
-/

namespace Collate.Workbook

/-- The reader of shared texts between two events. -/
structure SharedReader where
  /-- Inside an element that stands for one text. -/
  inItem : Bool
  /-- Inside a run of such an element. -/
  inRun : Bool
  /-- The text under way. -/
  current : List Char
  /-- The texts met, last first. -/
  done : List (List Char)
  deriving DecidableEq, Repr

namespace SharedReader

def start : SharedReader := ⟨false, false, [], []⟩

/-- Adds to the text under way. -/
def take (r : SharedReader) (content : List Char) : SharedReader :=
  if r.inRun then { r with current := r.current ++ content } else r

def step (r : SharedReader) : Event → SharedReader
  | .opened tag =>
    if isNamed tag.name "si" then { r with inItem := true, current := [] }
    else if isNamed tag.name "t" then { r with inRun := r.inItem }
    else r
  | .emptied tag => if isNamed tag.name "si" then { r with done := [] :: r.done } else r
  | .closed name =>
    if isNamed name "si" then { r with inItem := false, done := r.current :: r.done, current := [] }
    else if isNamed name "t" then { r with inRun := false }
    else r
  | .text content | .verbatim content => r.take content

end SharedReader

/-- The shared texts in order. -/
def sharedTexts (events : List Event) : List (List Char) :=
  (events.foldl SharedReader.step SharedReader.start).done.reverse

end Collate.Workbook
