import Collate.Workbook.Attributes

/-!
What a workbook says about its sheets: their names in order, and where the part
of each one is. A sheet points to its part through a relation; without one, or
with an unknown one, its part is looked for under the number of the sheet.
-/

namespace Collate.Workbook

/-- The tags of elements with a local name, opening and empty ones alike. -/
def tagsNamed (name : String) (events : List Event) : List Tag :=
  events.filterMap fun
    | .opened tag | .emptied tag => if isNamed tag.name name then some tag else none
    | _ => none

structure Sheet where
  name : String
  relation? : Option String
  deriving DecidableEq, Repr

/-- The sheets that a workbook lists. Those without a name do not count. -/
def listedSheets (events : List Event) : List Sheet :=
  (tagsNamed "sheet" events).filterMap fun tag =>
    (tag.attribute? "name").map fun name => ⟨name, tag.attribute? "id"⟩

/-- The targets of relations by their ids, the last one of an id standing. -/
def relationTargets (events : List Event) : List (String × String) :=
  ((tagsNamed "Relationship" events).filterMap fun tag => do
    let id ← tag.attribute? "Id"
    let target ← tag.attribute? "Target"
    some (id, target)).reverse

/-- Where in the archive a target is. Targets are relative to the workbook
unless they begin with a slash. -/
def partOfTarget (target : String) : String :=
  match target.toList with
  | '/' :: rest => String.ofList rest
  | _ => "xl/" ++ target

/-- Where in the archive a sheet's part is, the first sheet having index
zero. -/
def Sheet.part (sheet : Sheet) (targets : List (String × String)) (index : Nat) : String :=
  match sheet.relation?.bind fun id => targets.lookup id with
  | some target => partOfTarget target
  | none => s!"xl/worksheets/sheet{index + 1}.xml"

end Collate.Workbook
