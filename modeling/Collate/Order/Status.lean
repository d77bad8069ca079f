import Collate.Text.Unknown

/-!
Statuses of orders and items, and the roles of files. An order is drafted,
processed and then either waits for a merge or is done; a failed order goes back
to processing when one of its items is tried again.
-/

namespace Collate

inductive OrderStatus where
  | draft
  | processing
  /-- All items are resolved, and a merge is awaited. -/
  | mapping
  | completed
  | failed
  deriving DecidableEq, Repr

namespace OrderStatus

def all : List OrderStatus := [.draft, .processing, .mapping, .completed, .failed]

def name : OrderStatus → String
  | .draft => "DRAFT"
  | .processing => "PROCESSING"
  | .mapping => "MAPPING"
  | .completed => "COMPLETED"
  | .failed => "FAILED"

def ofName? (text : String) : Option OrderStatus :=
  all.find? fun s => s.name == text

def named (text : String) : Except Text.Unknown OrderStatus :=
  Text.named "order status" ofName? text

/-- Whether an order may go from one status to another. -/
def leadsTo : OrderStatus → OrderStatus → Bool
  | .draft, .processing => true
  | .processing, .mapping => true
  | .processing, .completed => true
  | .processing, .failed => true
  | .mapping, .completed => true
  | .failed, .processing => true
  | _, _ => false

end OrderStatus

inductive ItemStatus where
  | pending
  | processing
  | completed
  | failed
  deriving DecidableEq, Repr

namespace ItemStatus

def all : List ItemStatus := [.pending, .processing, .completed, .failed]

def name : ItemStatus → String
  | .pending => "PENDING"
  | .processing => "PROCESSING"
  | .completed => "COMPLETED"
  | .failed => "FAILED"

def ofName? (text : String) : Option ItemStatus :=
  all.find? fun s => s.name == text

def named (text : String) : Except Text.Unknown ItemStatus :=
  Text.named "item status" ofName? text

/-- Whether nothing more happens to an item. -/
def isFinal : ItemStatus → Bool
  | .completed | .failed => true
  | .pending | .processing => false

end ItemStatus

inductive FileRole where
  /-- The document whose rows are joined to. -/
  | primary
  | attachment
  deriving DecidableEq, Repr

namespace FileRole

def name : FileRole → String
  | .primary => "primary"
  | .attachment => "attachment"

def ofName? (text : String) : Option FileRole :=
  [primary, attachment].find? fun r => r.name == text

def named (text : String) : Except Text.Unknown FileRole := Text.named "file role" ofName? text

end FileRole

end Collate
