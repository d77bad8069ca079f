import Collate.Order.Fault
import Collate.Text.Blank

/-!
Orders, the choice of join keys, and where an order goes once all its items are
resolved.
-/

namespace Collate

/-- A batch of items with counters of how they fared. -/
structure Order where
  id : String
  name : Option String
  status : OrderStatus
  total : Nat
  completed : Nat
  failed : Nat
  /-- Where the mapping file is in the blob store. -/
  mappingFile : Option String
  /-- Join keys chosen for the whole order, best first. -/
  mappingKeys : Option (List String)
  reportPaths : List String
  error : Option String
  deriving DecidableEq, Repr

namespace Order

def create (id : String) (name : Option String) : Order where
  id := id
  name := name
  status := .draft
  total := 0
  completed := 0
  failed := 0
  mappingFile := none
  mappingKeys := none
  reportPaths := []
  error := none

def resolved (order : Order) : Nat := order.completed + order.failed

/-- Whether there are items and all of them are resolved. -/
def allResolved (order : Order) : Bool :=
  0 < order.total && order.resolved == order.total

def require (order : Order) (allowed : List OrderStatus) (operation : Operation) :
    Except OrderFault Unit :=
  if order.status ∈ allowed then .ok ()
  else .error (.orderRefuses order.id order.status operation)

def ensureLeadsTo (order : Order) (target : OrderStatus) : Except OrderFault Unit :=
  if order.status.leadsTo target then .ok ()
  else .error (.orderTransition order.id order.status target)

end Order

/-- The first text that was there before. -/
def repeated? (seen : List String) : List String → Option String
  | [] => none
  | text :: rest => if seen.contains text then some text else repeated? (text :: seen) rest

/-- Checks a choice of join keys and trims them. -/
def checkKeys (keys : List String) : Except OrderFault (List String) :=
  let trimmed := keys.map Text.trim
  if trimmed.isEmpty || maxOrderKeys < trimmed.length then
    .error (.invalidKeys (.count trimmed.length))
  else if trimmed.any String.isEmpty then .error (.invalidKeys .blank)
  else match repeated? [] trimmed with
    | some key => .error (.invalidKeys (.repeated key))
    | none => .ok trimmed

/-- What decides where a resolved order goes. -/
structure RollupFacts where
  total : Nat
  completed : Nat
  failed : Nat
  /-- The order has keys, or a template applies to a completed item. -/
  mappingResolvable : Bool
  /-- Completed items have both primary files and attachments. -/
  hasMergeableFiles : Bool
  deriving DecidableEq, Repr

/-- Where an order goes, if all its items are resolved. -/
def RollupFacts.target? (facts : RollupFacts) : Option OrderStatus :=
  if facts.total = 0 ∨ facts.completed + facts.failed ≠ facts.total then none
  else if 0 < facts.completed ∧ facts.mappingResolvable ∧ facts.hasMergeableFiles then
    some .mapping
  else if facts.failed = 0 then some .completed
  else some .failed

inductive Outcome where
  | payload (raw : String)
  | failed (error : String)
  deriving DecidableEq, Repr

/-- What the extraction of one file came to. -/
structure ExtractionResult where
  fileId : String
  itemId : String
  outcome : Outcome
  deriving DecidableEq, Repr

end Collate
