import Collate.ContentType
import Collate.Mapping.Template
import Collate.Order.Fault
import Collate.Time.Timestamp

/-!
Items: one primary document with its attachments. Nothing changes an item; every
step gives a new one, and no step starts from an item that is final. A failed
item is tried again as another item, which takes copies of its files along.
-/

namespace Collate

open Time (Timestamp)

structure FileRef where
  id : String
  itemId : String
  role : FileRole
  filename : String
  length : Nat
  /-- Where the content is in the blob store. -/
  storageRef : String
  contentType : Option String
  deriving DecidableEq, Repr

namespace FileRef

/-- A file; its name tells its content type. -/
def create [ContentType.Registry] (id itemId : String) (role : FileRole) (filename : String)
    (length : Nat) (storageRef : String) : FileRef where
  id := id
  itemId := itemId
  role := role
  filename := filename
  length := length
  storageRef := storageRef
  contentType := ContentType.ofFilename? filename

def copyTo (file : FileRef) (id itemId : String) : FileRef :=
  { file with id, itemId }

end FileRef

structure Item where
  id : String
  orderId : String
  company : String
  documentType : String
  name : String
  status : ItemStatus
  files : List FileRef
  /-- The failed item that this one tries again. -/
  retryOf : Option String
  startedAt : Option Timestamp
  endedAt : Option Timestamp
  error : Option String
  createdAt : Timestamp
  deriving DecidableEq, Repr

namespace Item

def create (id orderId company documentType name : String) (now : Timestamp) : Item where
  id := id
  orderId := orderId
  company := company
  documentType := documentType
  name := name
  status := .pending
  files := []
  retryOf := none
  startedAt := none
  endedAt := none
  error := none
  createdAt := now

def primaryFile? (item : Item) : Option FileRef :=
  item.files.find? fun f => f.role == .primary

def attachments (item : Item) : List FileRef :=
  item.files.filter fun f => f.role == .attachment

/-- The item type that the attachments call for. -/
def itemType (item : Item) : ItemType :=
  ItemType.forAttachments item.attachments.length

def durationMillis? (item : Item) : Option Int :=
  match item.startedAt, item.endedAt with
  | some start, some finish => some (Timestamp.millisBetween start finish)
  | _, _ => none

def refuseStep {α : Type} (item : Item) (target : ItemStatus) : Except OrderFault α :=
  .error (.itemTransition item.id item.status target)

def withFile (item : Item) (file : FileRef) : Except OrderFault Item :=
  if item.status.isFinal then .error (.itemRefuses item.id item.status .attachFile)
  else .ok { item with files := item.files ++ [{ file with itemId := item.id }] }

def start (item : Item) (now : Timestamp) : Except OrderFault Item :=
  if item.status = .pending then
    .ok { item with status := .processing, startedAt := some now }
  else item.refuseStep .processing

def complete (item : Item) (now : Timestamp) : Except OrderFault Item :=
  if item.status = .processing then
    .ok { item with status := .completed, endedAt := some now }
  else item.refuseStep .completed

def fail (item : Item) (error : String) (now : Timestamp) : Except OrderFault Item :=
  if item.status = .processing then
    .ok { item with status := .failed, endedAt := some now, error := some error }
  else item.refuseStep .failed

/-- The next try of a failed item. The item takes the first of the ids, its
copied files the following ones. -/
def retryFrom (failed : Item) (idAt : Nat → String) (now : Timestamp) : Except OrderFault Item :=
  if failed.status = .failed then
    .ok { create (idAt 0) failed.orderId failed.company failed.documentType failed.name now with
      files := failed.files.mapIdx fun n file => file.copyTo (idAt (n + 1)) (idAt 0)
      retryOf := some failed.id }
  else failed.refuseStep .pending

end Item

end Collate
