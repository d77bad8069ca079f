import Collate.Mapping.Scope
import Collate.Mapping.Section
import Collate.Merge.Join
import Collate.Order.Basic
import Collate.Order.Item

/-!
What is kept of orders: the orders themselves, their items with the files, the
results of extraction, merged tables, templates and bindings. Rows are kept in
the order in which they were put in. An operation either gives a new store or a
fault, never half of a change.
-/

namespace Collate

open Time (Timestamp)

/-- Everything that is kept. -/
structure Store where
  orders : List Order
  items : List Item
  results : List ExtractionResult
  merged : Dict Merged
  templates : List Template
  /-- The id that the next new template gets. -/
  nextTemplateId : Int
  bindings : List Binding

/-- A rule that rows obey. -/
inductive Constraint where
  /-- No two rows have the same value in a column. -/
  | unique (column : String)
  /-- What a row refers to is there. -/
  | reference
  deriving DecidableEq, Repr

def Constraint.message : Constraint → String
  | .unique column => s!"SQLite error: UNIQUE constraint failed: {column}"
  | .reference => "SQLite error: FOREIGN KEY constraint failed"

inductive StoreFault where
  | order (fault : OrderFault)
  | mapping (fault : MappingFault)
  | constraint (broken : Constraint)
  deriving DecidableEq, Repr

instance : MonadLift (Except OrderFault) (Except StoreFault) :=
  ⟨fun result => result.mapError .order⟩

/-- An operation on a store. -/
abbrev StoreOp (α : Type) := Store → Except StoreFault (α × Store)

namespace Store

def empty : Store := ⟨[], [], [], Dict.empty, [], 1, []⟩

def order? (s : Store) (id : String) : Option Order :=
  s.orders.find? (·.id == id)

def order (s : Store) (id : String) : Except OrderFault Order :=
  match s.order? id with
  | some o => .ok o
  | none => .error (.orderNotFound id)

def item? (s : Store) (id : String) : Option Item :=
  s.items.find? (·.id == id)

def item (s : Store) (id : String) : Except OrderFault Item :=
  match s.item? id with
  | some i => .ok i
  | none => .error (.itemNotFound id)

def noLater (a b : Timestamp) : Bool :=
  a.seconds < b.seconds || (a.seconds == b.seconds && a.nanos ≤ b.nanos)

/-- The items of an order, the oldest first. -/
def itemsOf (s : Store) (order : String) : List Item :=
  (s.items.filter (·.orderId == order)).mergeSort fun a b => noLater a.createdAt b.createdAt

/-- Whether an item is tried again by another one. -/
def isRetried (s : Store) (item : String) : Bool :=
  s.items.any (·.retryOf == some item)

def hasFile (s : Store) (file : String) : Bool :=
  s.items.any fun i => i.files.any (·.id == file)

/-- The place of a file among the files of its item. -/
def filePlace (s : Store) (file : String) : Nat :=
  (s.items.findSome? fun i => i.files.findIdx? (·.id == file)).getD 0

/-- The results recorded for an item, in the order of its files. -/
def resultsOf (s : Store) (item : String) : List ExtractionResult :=
  (s.results.filter (·.itemId == item)).mergeSort fun a b =>
    s.filePlace a.fileId ≤ s.filePlace b.fileId

def template? (s : Store) (id : Int) : Option Template :=
  s.templates.find? (·.id == id)

def binding? (s : Store) (company documentType : String) (itemType : ItemType) :
    Option Binding :=
  s.bindings.find? fun b =>
    b.company == company && b.documentType == documentType && b.itemType == itemType

def admits (t : Template) (company documentType : String) : Bool :=
  (t.company == none || t.company == some company) &&
    (t.documentType == none || t.documentType == some documentType)

/-- The templates that admit a lookup, by priority and id. -/
def candidates (s : Store) (company documentType : String) (itemType : ItemType) :
    List Template :=
  (s.templates.filter fun t => t.itemType == itemType && admits t company documentType).mergeSort
    fun a b => a.priority < b.priority || (a.priority == b.priority && a.id ≤ b.id)

def bestTemplate? (s : Store) (company documentType : String) (itemType : ItemType) :
    Option Template :=
  selectTemplate (s.candidates company documentType itemType) company documentType itemType

def plan? (s : Store) (company documentType : String) (itemType : ItemType) : Option JoinPlan :=
  resolvePlan (s.binding? company documentType itemType) s.template?
    (s.bestTemplate? company documentType itemType) itemType

def updateOrder (s : Store) (id : String) (change : Order → Order) : Store :=
  { s with orders := s.orders.map fun o => if o.id == id then change o else o }

def updateItem (s : Store) (id : String) (change : Item → Item) : Store :=
  { s with items := s.items.map fun i => if i.id == id then change i else i }

end Store

end Collate
