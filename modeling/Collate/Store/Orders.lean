import Collate.Store.Basic

/-!
Operations on orders. Moves between statuses compare first: they take place only
while the order is where the caller saw it, and say whether they did.
-/

namespace Collate.Store

def createOrder (order : Order) : StoreOp Unit := fun s =>
  if (s.order? order.id).isSome then .error (.constraint (.unique "orders.id"))
  else .ok ((), { s with orders := s.orders ++ [order] })

def setMappingKeys (id : String) (keys : List String) : StoreOp Unit := fun s => do
  let order ← s.order id
  order.require [.draft] .setMappingKeys
  .ok ((), s.updateOrder id fun o => { o with mappingKeys := some keys })

def setMappingFile (id reference : String) : StoreOp Unit := fun s => do
  let order ← s.order id
  order.require [.draft] .setMappingFile
  .ok ((), s.updateOrder id fun o => { o with mappingFile := some reference })

/-- Sends a drafted order off and gives the ids of its pending items. -/
def submit (id : String) : StoreOp (List String) := fun s => do
  let order ← s.order id
  order.require [.draft] .submit
  if order.total = 0 then .error (.order (.noItems id))
  else
    let pending := (s.itemsOf id).filter (·.status == .pending)
    .ok (pending.map (·.id), s.updateOrder id fun o => { o with status := .processing })

/-- Moves an order that is still in a status on to another. -/
def moveOrder (id : String) (source target : OrderStatus) : StoreOp Bool := fun s =>
  if source.leadsTo target then
    match s.order? id with
    | some order =>
      if order.status = source then
        .ok (true, s.updateOrder id fun o => { o with status := target })
      else .ok (false, s)
    | none => .ok (false, s)
  else .error (.order (.orderTransition id source target))

/-- Whether an order still stands as in a snapshot with all items resolved. -/
def standsAs (order snapshot : Order) : Bool :=
  order.status == .processing && order.total == snapshot.total &&
    order.completed == snapshot.completed && order.failed == snapshot.failed &&
    order.completed + order.failed == order.total

/-- Moves an order on that still stands as in a snapshot. -/
def rollUp (snapshot : Order) (target : OrderStatus) : StoreOp Bool := fun s => do
  snapshot.require [.processing] .rollup
  snapshot.ensureLeadsTo target
  match s.order? snapshot.id with
  | some order =>
    if standsAs order snapshot then
      .ok (true, s.updateOrder snapshot.id fun o => { o with status := target })
    else .ok (false, s)
  | none => .ok (false, s)

/-- Notes an error on an order, or takes the note away. -/
def noteError (id : String) (error : Option String) : StoreOp Unit := fun s =>
  .ok ((), s.updateOrder id fun o => { o with error })

def setReportPaths (id : String) (paths : List String) : StoreOp Unit := fun s =>
  .ok ((), s.updateOrder id fun o => { o with reportPaths := paths })

def saveMerged (id : String) (table : Merged) : StoreOp Unit := fun s =>
  if (s.order? id).isNone then .error (.constraint .reference)
  else .ok ((), { s with merged := s.merged.insert id table })

end Collate.Store
