import Collate.Service.Planning
import Collate.Store.Items
import Collate.Store.Orders

/-!
Processing items. Sending an order off gives the ids of its pending items, each
of which is then extracted and resolved by whoever comes first; what goes wrong
with a document fails the item, not the call. The call that resolves the last
item rolls the order up. A failed item may be tried again.
-/

namespace Collate.Service

/-- Sends a drafted order off and gives the ids of its pending items. -/
def submit (policy : Policy) (order : String) : Procedure (List String) := do
  let pending ← Procedure.store (Store.submit order)
  Procedure.announceOrder policy order .submitted "Order submitted"
  pure pending

/-- The tables of an item. -/
structure ItemTables where
  primary : Table
  attachments : List Table
  deriving DecidableEq, Repr

def resultTable (options : FlattenOptions) (item : Item) (results : List ExtractionResult)
    (file : FileRef) : Except ServiceFault Table :=
  match results.find? (·.fileId == file.id) with
  | none => .error (.order (.missingResult item.id file.filename))
  | some result =>
    match result.outcome with
    | .payload raw => (Table.ofPayloadText options raw).mapError .payload
    | .failed error => .error (.order (.failedExtraction item.id file.filename error))

def resultTables (options : FlattenOptions) (item : Item) (results : List ExtractionResult) :
    List FileRef → Except ServiceFault (List (FileRole × Table))
  | [] => .ok []
  | file :: rest => do
    let table ← resultTable options item results file
    let more ← resultTables options item results rest
    .ok ((file.role, table) :: more)

/-- Takes the first primary table out. All others are attachments. -/
def splitPrimary : List (FileRole × Table) → Option Table × List Table
  | [] => (none, [])
  | (.primary, table) :: rest => (some table, rest.map (·.2))
  | (.attachment, table) :: rest =>
    let (primary, attachments) := splitPrimary rest
    (primary, table :: attachments)

def ItemTables.ofResults (options : FlattenOptions) (item : Item)
    (results : List ExtractionResult) : Except ServiceFault ItemTables := do
  let tables ← resultTables options item results item.files
  let (primary, attachments) := splitPrimary tables
  .ok ⟨primary.getD Table.empty, attachments⟩

def loadTables (policy : Policy) (item : Item) : Procedure ItemTables := do
  let results ← Procedure.look (·.resultsOf item.id)
  Procedure.need (ItemTables.ofResults policy.flatten item results)

/-- What the extraction of a file comes to. -/
def extractFile (policy : Policy) (item : Item) (file : FileRef) : Procedure Outcome := do
  match ← Procedure.readBlob policy file.storageRef with
  | .error fault => pure (.failed fault.message)
  | .ok content =>
    match ← Procedure.extract policy (DocumentConfig.ofFile item file) content with
    | .ok raw => pure (.payload raw)
    | .error error => pure (.failed error)

/-- Why the item fails, if the extraction of a file does. -/
def failureOf (file : FileRef) : Outcome → Except String Unit
  | .payload _ => .ok ()
  | .failed error => .error (file.filename ++ ": " ++ error)

/-- Extracts files and records the results, up to the first failure. -/
def extractFiles (policy : Policy) (item : Item) : List FileRef → Procedure (Except String Unit)
  | [] => pure (.ok ())
  | file :: rest => do
    let outcome ← extractFile policy item file
    let result : ExtractionResult := ⟨file.id, file.itemId, outcome⟩
    match ← (Procedure.store (Store.putResult result)).attempt with
    | .error fault =>
      pure (.error ("failed to store result for " ++ file.filename ++ ": " ++ fault.message))
    | .ok _ =>
      match failureOf file outcome with
      | .ok () => extractFiles policy item rest
      | .error reason => pure (.error reason)

def checkHeaders (keys : Option (List String)) (primary : Table) : Except String Unit :=
  match (keys.getD []).filter fun k => !primary.hasHeader k with
  | [] => .ok ()
  | missing =>
    .error ("mapping key(s) " ++ ", ".intercalate missing ++
      " not found in primary extraction headers [" ++ ", ".intercalate primary.headers ++ "]")

/-- Checks the recorded results of an item. -/
def checkResults (policy : Policy) (item : Item) (keys : Option (List String)) :
    Procedure (Except String Unit) := do
  match ← (loadTables policy item).attempt with
  | .ok tables => pure (checkHeaders keys tables.primary)
  | .error fault => pure (.error fault.message)

/-- Extracts the files of an item and checks the results. -/
def examine (policy : Policy) (item : Item) (keys : Option (List String)) :
    Procedure (Except String Unit) := do
  if item.primaryFile?.isNone then pure (.error "item has no primary file")
  else match ← extractFiles policy item item.files with
    | .ok () => checkResults policy item keys
    | .error reason => pure (.error reason)

/-- Whether a template or a binding applies to one of some items. -/
def anyPlan : List Item → Procedure Bool
  | [] => pure false
  | item :: rest => do
    match ← planOf? item with
    | some _ => pure true
    | none => anyPlan rest

/-- What decides where an order goes, its items being at hand. -/
def factsOf (order : Order) (completed : List Item) (resolvable : Bool) : RollupFacts where
  total := order.total
  completed := order.completed
  failed := order.failed
  mappingResolvable := resolvable
  hasMergeableFiles :=
    completed.any (·.primaryFile?.isSome) && completed.any (!·.attachments.isEmpty)

/-- Moves an order on whose items are all resolved, and says where to. -/
def rollup (policy : Policy) (id : String) : Procedure (Option OrderStatus) := do
  let order ← Procedure.order id
  if order.status != .processing || !order.allResolved then pure none
  else
    let items ← Procedure.look (·.itemsOf id)
    let completed := items.filter (·.status == .completed)
    let resolvable ← if order.mappingKeys.isSome then pure true else anyPlan completed
    match (factsOf order completed resolvable).target? with
    | none => pure none
    | some target =>
      if ← Procedure.store (Store.rollUp order target) then
        Procedure.announceOrder policy id .statusChanged ("Order is " ++ target.name)
        pure (some target)
      else pure none

def resolutionEvent (order : Order) (id : String) (resolved : Item) : ProgressEvent :=
  match resolved.error with
  | some error =>
    { ProgressEvent.ofItem order id .itemFailed "Item failed" with error := some error }
  | none => ProgressEvent.ofItem order id .itemCompleted "Item completed"

/-- Extracts and resolves an item, unless that was begun before. -/
def processItem (policy : Policy) (id : String) : Procedure (Option Item) := do
  match ← Procedure.store (Store.begin id (← Procedure.now)) with
  | none => pure none
  | some started =>
    let order ← Procedure.order started.orderId
    Procedure.announce policy (ProgressEvent.ofItem order id .itemStarted "Extracting item")
    let outcome ← examine policy started order.mappingKeys
    let finished ← Procedure.now
    let resolved ← Procedure.need <| (match outcome with
      | .ok () => started.complete finished
      | .error reason => started.fail reason finished).mapError .order
    let order ← Procedure.store (Store.resolve resolved)
    Procedure.announce policy (resolutionEvent order id resolved)
    if order.allResolved then
      let _ ← rollup policy order.id
      pure (some resolved)
    else pure (some resolved)

/-- Has a failed item tried again, as another item. -/
def retryItem (policy : Policy) (id : String) : Procedure Item := do
  let failed ← Procedure.item id
  let idAt ← Procedure.newIds (failed.files.length + 1)
  let next ← Procedure.need ((failed.retryFrom idAt (← Procedure.now)).mapError .order)
  let order ← Procedure.store (Store.retry next)
  Procedure.announce policy
    (ProgressEvent.ofItem order next.id .itemRetried "Item queued for retry")
  pure next

end Collate.Service
