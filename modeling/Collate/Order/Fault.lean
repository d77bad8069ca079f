import Collate.Order.Status

/-!
Why something cannot be done with an order or an item.
-/

namespace Collate

inductive Operation where
  | addItem
  | attachFile
  | setMappingKeys
  | setMappingFile
  | submit
  | rollup
  | retry
  | merge
  | loadTables
  deriving DecidableEq, Repr

def Operation.name : Operation → String
  | .addItem => "add_item"
  | .attachFile => "attach_file"
  | .setMappingKeys => "set_mapping_keys"
  | .setMappingFile => "set_mapping_file"
  | .submit => "submit"
  | .rollup => "rollup"
  | .retry => "retry"
  | .merge => "merge"
  | .loadTables => "load_tables"

inductive KeyFault where
  | count (found : Nat)
  | blank
  | repeated (key : String)
  deriving DecidableEq, Repr

/-- How many join keys an order may have. -/
def maxOrderKeys : Nat := 3

def KeyFault.message : KeyFault → String
  | .count found => s!"expected 1 to {maxOrderKeys} keys, got {found}"
  | .blank => "keys must not be blank"
  | .repeated key => s!"duplicate key '{key}'"

inductive OrderFault where
  | orderNotFound (id : String)
  | itemNotFound (id : String)
  | itemTransition (id : String) (source target : ItemStatus)
  /-- The item has not failed, or is tried again already. -/
  | notRetriable (id : String) (status : ItemStatus)
  | orderTransition (id : String) (source target : OrderStatus)
  | orderRefuses (id : String) (status : OrderStatus) (operation : Operation)
  | itemRefuses (id : String) (status : ItemStatus) (operation : Operation)
  | missingResult (item filename : String)
  | failedExtraction (item filename error : String)
  | noItems (order : String)
  | invalidKeys (fault : KeyFault)
  | mappingNotFound (item company documentType : String)
  | noMergedTable (order : String)
  deriving DecidableEq, Repr

namespace OrderFault

def refusal (id status : String) (operation : Operation) : String :=
  s!"Operation '{operation.name}' not allowed while order {id} is {status}"

def message : OrderFault → String
  | .orderNotFound id => s!"Order not found: {id}"
  | .itemNotFound id => s!"Item not found: {id}"
  | .itemTransition id source target =>
    s!"Invalid item transition for {id}: {source.name} -> {target.name}"
  | .notRetriable id status => s!"Invalid item transition for {id}: {status.name} -> RETRIED"
  | .orderTransition id source target =>
    s!"Invalid order transition for {id}: {source.name} -> {target.name}"
  | .orderRefuses id status operation => refusal id status.name operation
  | .itemRefuses id status operation => refusal id status.name operation
  | .missingResult item filename =>
    refusal item ("missing result for " ++ filename) .loadTables
  | .failedExtraction item filename error =>
    refusal item ("extraction failed for " ++ filename ++ ": " ++ error) .loadTables
  | .noItems order => s!"Order {order} has no items to submit"
  | .invalidKeys fault => s!"Invalid mapping keys: {fault.message}"
  | .mappingNotFound item company documentType =>
    s!"No mapping configuration found for item {item} ({company}/{documentType})"
  | .noMergedTable order => s!"No merged table stored for order {order}"

end OrderFault

end Collate
