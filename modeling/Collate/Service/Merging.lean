import Collate.Service.Intake
import Collate.Service.Processing

/-!
Merging orders and reporting on them. A merge that fails leaves a note on its
order and nothing else; one that succeeds may be run again.
-/

namespace Collate.Service

/-- The merged table of a completed item. -/
def mergeItem (policy : Policy) (order : Order) (item : Item) : Procedure Merged := do
  let plan ← joinPlan order item
  let tables ← loadTables policy item
  let attachments ← match plan.masterCsv with
    | some path => do pure (tables.attachments ++ [← Procedure.readTable path])
    | none => pure tables.attachments
  Procedure.need ((merge plan policy.rule tables.primary attachments).mapError .merge)

def mergeItems (policy : Policy) (order : Order) : List Item → Procedure (List Merged)
  | [] => pure []
  | item :: rest => do
    let merged ← mergeItem policy order item
    let more ← mergeItems policy order rest
    pure (merged :: more)

/-- The merged table of an order's completed items. -/
def buildMerged (policy : Policy) (order : Order) : Procedure Merged := do
  let items ← Procedure.look (·.itemsOf order.id)
  let parts ← mergeItems policy order (items.filter (·.status == .completed))
  pure (Merged.concat parts)

/-- Whether an order was merged before and is done. -/
def isRerun (order : Order) : Procedure Bool :=
  if order.status == .completed then Procedure.look fun s => s.merged.contains order.id
  else pure false

/-- Keeps the merged table of an order that awaited it. -/
def keepMerged (policy : Policy) (order : Order) (merged : Merged) : Procedure Unit := do
  Procedure.store (Store.saveMerged order.id merged)
  Procedure.store (Store.noteError order.id none)
  if order.status = .mapping then
    let _ ← Procedure.store (Store.moveOrder order.id .mapping .completed)
    Procedure.announceOrder policy order.id .mergeCompleted "Merge completed"
  else Procedure.announceOrder policy order.id .mergeCompleted "Merge completed"

/-- Merges an order that awaits it, or one that was merged before. -/
def runMerge (policy : Policy) (id : String) : Procedure Merged := do
  let order ← Procedure.order id
  let rerun ← isRerun order
  if !rerun then Procedure.need ((order.require [.mapping] .merge).mapError .order)
  match ← (buildMerged policy order).attempt with
  | .ok merged =>
    keepMerged policy order merged
    pure merged
  | .error fault =>
    Procedure.store (Store.noteError id (some fault.message))
    Procedure.announce policy { ProgressEvent.ofOrder order .mergeFailed "Merge failed" with
      error := some fault.message }
    Procedure.need (.error fault)

def mergedTable (id : String) : Procedure Merged := do
  match ← Procedure.look (·.merged.get? id) with
  | some merged => pure merged
  | none => Procedure.need (.error (.order (.noMergedTable id)))

/-- Writes the merged table of an order as a report and gives its reference. -/
def exportReport (policy : Policy) (id : String) : Procedure String := do
  let order ← Procedure.order id
  let merged ← mergedTable id
  let content := Text.Utf8.ofText merged.table.toCsv
  let reference ← Procedure.writeBlob policy ("reports/" ++ id) "merged.csv" content
  Procedure.store (Store.setReportPaths id (order.reportPaths ++ [reference]))
  Procedure.announce policy (ProgressEvent.ofOrder order .reportExported reference)
  pure reference

end Collate.Service
