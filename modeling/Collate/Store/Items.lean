import Collate.Store.Basic

/-!
Operations on items, their files and results. An item's status and the counters
of its order change together; a result is recorded once and stays.
-/

namespace Collate.Store

/-- The broken rule, if a file of that id is there already. -/
def freshFiles (s : Store) (files : List FileRef) : Except StoreFault Unit :=
  if files.any fun f => s.hasFile f.id then .error (.constraint (.unique "item_files.id"))
  else if (repeated? [] (files.map (·.id))).isSome then
    .error (.constraint (.unique "item_files.id"))
  else .ok ()

def insertItem (item : Item) (s : Store) : Except StoreFault Store := do
  if item.retryOf.isSome && s.items.any (·.retryOf == item.retryOf) then
    .error (.constraint (.unique "items.retry_of"))
  else if (s.item? item.id).isSome then .error (.constraint (.unique "items.id"))
  else if (s.order? item.orderId).isNone then .error (.constraint .reference)
  else if item.retryOf.any fun failed => failed != item.id && (s.item? failed).isNone then
    .error (.constraint .reference)
  else
    s.freshFiles item.files
    .ok { s with items := s.items ++ [item] }

/-- Puts a pending item into a drafted order. -/
def addItem (item : Item) : StoreOp Unit := fun s => do
  let order ← s.order item.orderId
  order.require [.draft] .addItem
  if item.status = .pending then
    let s ← s.insertItem item
    .ok ((), s.updateOrder order.id fun o => { o with total := o.total + 1 })
  else .error (.order (.itemRefuses item.id item.status .addItem))

/-- Attaches a file to an item that is not final, of an order that is not
resolved. -/
def attachFile (file : FileRef) : StoreOp Unit := fun s => do
  let item ← s.item file.itemId
  let order ← s.order item.orderId
  order.require [.draft, .processing] .attachFile
  let _ ← item.withFile file
  s.freshFiles [file]
  .ok ((), s.updateItem item.id fun i => { i with files := i.files ++ [file] })

/-- Begins processing of a pending item and gives it; an item in another status
is passed over. -/
def begin (id : String) (now : Time.Timestamp) : StoreOp (Option Item) := fun s => do
  let item ← s.item id
  if item.status = .pending then
    let started ← item.start now
    .ok (some started, s.updateItem id fun i =>
      { i with status := .processing, startedAt := some now })
  else .ok (none, s)

/-- Records a result unless there is one for the file, and says whether it
did. -/
def putResult (result : ExtractionResult) : StoreOp Bool := fun s =>
  if s.results.any (·.fileId == result.fileId) then .ok (false, s)
  else if s.hasFile result.fileId && (s.item? result.itemId).isSome then
    .ok (true, { s with results := s.results ++ [result] })
  else .error (.constraint .reference)

def countResolution (status : ItemStatus) (order : Order) : Order :=
  match status with
  | .completed => { order with completed := order.completed + 1 }
  | .failed => { order with failed := order.failed + 1 }
  | .pending | .processing => order

/-- Ends processing of an item as its copy at hand says, and gives the order with
the resolution counted. -/
def resolve (held : Item) : StoreOp Order := fun s => do
  if held.status.isFinal then
    match s.item? held.id with
    | none => .error (.order (.itemNotFound held.id))
    | some item =>
      if item.status = .processing then
        let s := s.updateItem held.id fun i =>
          { i with status := held.status, endedAt := held.endedAt, error := held.error }
        let s := s.updateOrder held.orderId (countResolution held.status)
        let order ← s.order held.orderId
        .ok (order, s)
      else .error (.order (.itemTransition held.id item.status held.status))
  else .error (.order (.itemTransition held.id .processing held.status))

def releaseFailed (order : Order) : Order :=
  { order with failed := order.failed - 1 }

/-- Puts in the next try of a failed item that has none yet. A failed order is
processed again. -/
def retry (next : Item) : StoreOp Order := fun s => do
  match next.retryOf with
  | none => .error (.order (.itemRefuses next.id next.status .retry))
  | some failedId =>
    let failed ← s.item failedId
    if failed.status ≠ .failed ∨ s.isRetried failedId then
      .error (.order (.notRetriable failedId failed.status))
    else
      let order ← s.order failed.orderId
      order.require [.processing, .failed] .retry
      let s := s.updateOrder order.id fun o =>
        releaseFailed { o with status := if o.status = .failed then .processing else o.status }
      let s ← s.insertItem next
      let order ← s.order order.id
      .ok (order, s)

end Collate.Store
