import Collate.Order.Basic

/-!
Progress of orders. An event says what happened, with the status and the
counters that the order had then.
-/

namespace Collate

inductive Phase where
  | submitted
  | itemStarted
  | itemCompleted
  | itemFailed
  | itemRetried
  /-- The order went to another status once its items were resolved. -/
  | statusChanged
  | mergeCompleted
  | mergeFailed
  | reportExported
  deriving DecidableEq, Repr

namespace Phase

def all : List Phase :=
  [.submitted, .itemStarted, .itemCompleted, .itemFailed, .itemRetried, .statusChanged,
    .mergeCompleted, .mergeFailed, .reportExported]

def name : Phase → String
  | .submitted => "submitted"
  | .itemStarted => "item_started"
  | .itemCompleted => "item_completed"
  | .itemFailed => "item_failed"
  | .itemRetried => "item_retried"
  | .statusChanged => "status_changed"
  | .mergeCompleted => "merge_completed"
  | .mergeFailed => "merge_failed"
  | .reportExported => "report_exported"

def ofName? (text : String) : Option Phase :=
  all.find? fun p => p.name == text

def label : Phase → String
  | .submitted => "Submitted"
  | .itemStarted => "Extracting item"
  | .itemCompleted => "Item completed"
  | .itemFailed => "Item failed"
  | .itemRetried => "Item retried"
  | .statusChanged => "Status changed"
  | .mergeCompleted => "Merge completed"
  | .mergeFailed => "Merge failed"
  | .reportExported => "Report exported"

end Phase

/-- What happened to an order, and how it stood. -/
structure ProgressEvent where
  orderId : String
  itemId : Option String
  phase : Phase
  status : OrderStatus
  total : Nat
  completed : Nat
  failed : Nat
  message : String
  error : Option String
  deriving DecidableEq, Repr

namespace ProgressEvent

def ofOrder (order : Order) (phase : Phase) (message : String) : ProgressEvent where
  orderId := order.id
  itemId := none
  phase := phase
  status := order.status
  total := order.total
  completed := order.completed
  failed := order.failed
  message := message
  error := none

def ofItem (order : Order) (item : String) (phase : Phase) (message : String) : ProgressEvent :=
  { ofOrder order phase message with itemId := some item }

/-- The share of items that are resolved, in percent, rounded down. -/
def percent (e : ProgressEvent) : Nat :=
  if e.total = 0 then 0 else min 100 ((e.completed + e.failed) * 100 / e.total)

end ProgressEvent

end Collate
