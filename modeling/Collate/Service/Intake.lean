import Collate.Service.Procedure
import Collate.Store.Items
import Collate.Store.Orders

/-!
Taking in orders, items, files, join keys and mapping files. A file is checked
before its content is stored, so that a refused call leaves no blob behind.
-/

namespace Collate.Service

def orderDirectory (order : String) : String := "orders/" ++ order

def createOrder (name : Option String) : Procedure Order := do
  let idAt ← Procedure.newIds 1
  let order := Order.create (idAt 0) name
  Procedure.store (Store.createOrder order)
  pure order

def addItem (order company documentType name : String) : Procedure Item := do
  let idAt ← Procedure.newIds 1
  let item := Item.create (idAt 0) order company documentType name (← Procedure.now)
  Procedure.store (Store.addItem item)
  pure item

/-- A file that is stored already, under a new id. -/
def newFile [ContentType.Registry] (item : String) (role : FileRole) (filename : String)
    (length : Nat) (reference : String) : Procedure FileRef := do
  let idAt ← Procedure.newIds 1
  pure (FileRef.create (idAt 0) item role filename length reference)

def attachFile (file : FileRef) : Procedure Unit :=
  Procedure.store (Store.attachFile file)

/-- Refuses files for an item that is final. -/
def requireOpen (item : Item) : Except ServiceFault Unit :=
  if item.status.isFinal then .error (.order (.itemRefuses item.id item.status .attachFile))
  else .ok ()

/-- Stores a file and attaches it to an item. -/
def uploadFile (policy : Policy) (item : String) (role : FileRole) (filename : String)
    (content : Octets) : Procedure FileRef := do
  let item ← Procedure.item item
  let order ← Procedure.order item.orderId
  Procedure.need ((order.require [.draft, .processing] .attachFile).mapError .order)
  Procedure.need (requireOpen item)
  let directory := orderDirectory order.id ++ "/items/" ++ item.id
  let reference ← Procedure.writeBlob policy directory filename content
  let file ← @newFile policy.types item.id role filename content.length reference
  attachFile file
  pure file

def setMappingKeys (order : String) (keys : List String) : Procedure (List String) := do
  let keys ← Procedure.need ((checkKeys keys).mapError .order)
  Procedure.store (Store.setMappingKeys order keys)
  pure keys

/-- Stores a mapping file for a drafted order and gives its headers. -/
def uploadMappingFile (policy : Policy) (order filename : String) (content : Octets) :
    Procedure Workbook.SheetHeaders := do
  let found ← Procedure.order order
  Procedure.need ((found.require [.draft] .setMappingFile).mapError .order)
  let headers ← Procedure.need ((MappingFile.headers filename content).mapError .mappingFile)
  let reference ← Procedure.writeBlob policy (orderDirectory order ++ "/mapping") filename content
  Procedure.store (Store.setMappingFile order reference)
  pure headers

def lastPart (reference : String) : String :=
  String.ofList ((Path.parts reference.toList).getLast?.getD [])

/-- The headers of an order's mapping file, if it has one. -/
def mappingFileHeaders (policy : Policy) (order : String) :
    Procedure (Option Workbook.SheetHeaders) := do
  let order ← Procedure.order order
  match order.mappingFile with
  | none => pure none
  | some reference =>
    let content ← Procedure.need ((← Procedure.readBlob policy reference).mapError .blob)
    let headers := MappingFile.headers (lastPart reference) content
    pure (some (← Procedure.need (headers.mapError .mappingFile)))

end Collate.Service
