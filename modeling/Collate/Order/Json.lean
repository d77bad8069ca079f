import Collate.Extraction
import Collate.Json.Decode
import Collate.Order.Basic
import Collate.Progress
import Collate.Time.Reader

/-!
The JSON form of orders, items, files, results and progress events. Orders,
results and events are written with the times at which they came about, which
nothing else depends on.
-/

namespace Collate

open Json (Read slots readText readList readNat)
open Time (Timestamp)

def Time.Timestamp.ofJson : Read Timestamp
  | .string s =>
    match Timestamp.read? s with
    | some t => .ok t
    | none => .error (.notTimestamp s)
  | _ => .error .otherKind

def Time.Timestamp.toJson (t : Timestamp) : Json := .string t.text

def OrderStatus.ofJson : Read OrderStatus := Json.readName ofName?

def ItemStatus.ofJson : Read ItemStatus := Json.readName ofName?

def FileRole.ofJson : Read FileRole := Json.readName ofName?

def Phase.ofJson : Read Phase := Json.readName ofName?

namespace FileRef

def fieldNames : List String :=
  ["id", "itemId", "role", "filename", "byteLen", "storageRef", "mimeType"]

def ofJson : Read FileRef := fun doc => do
  let slot ← slots fieldNames doc
  let length ← (slot "byteLen").required (readNat WholeRange.unsigned64)
  let filename ← (slot "filename").required readText
  let id ← (slot "id").required readText
  let itemId ← (slot "itemId").required readText
  let contentType ← (slot "mimeType").optional readText
  let role ← (slot "role").required FileRole.ofJson
  let storageRef ← (slot "storageRef").required readText
  .ok { id, itemId, role, filename, length, storageRef, contentType }

def toJson (f : FileRef) : Json :=
  .object
    [("id", .string f.id), ("itemId", .string f.itemId), ("role", .string f.role.name),
      ("filename", .string f.filename), ("byteLen", Json.ofNat f.length),
      ("storageRef", .string f.storageRef), ("mimeType", Json.ofOption .string f.contentType)]

end FileRef

def DocumentConfig.toJson (c : DocumentConfig) : Json :=
  .object
    [("companyId", .string c.company), ("documentTypeId", .string c.documentType),
      ("role", .string c.role.name), ("mimeType", Json.ofOption .string c.contentType)]

namespace Item

def fieldNames : List String :=
  ["id", "orderId", "companyId", "documentTypeId", "name", "status", "files", "retryOf",
    "processingStartedAt", "processingEndedAt", "errorMessage", "createdAt"]

def ofJson : Read Item := fun doc => do
  let slot ← slots fieldNames doc
  let company ← (slot "companyId").required readText
  let createdAt ← (slot "createdAt").required Timestamp.ofJson
  let documentType ← (slot "documentTypeId").required readText
  let error ← (slot "errorMessage").optional readText
  let files ← (slot "files").required (readList FileRef.ofJson)
  let id ← (slot "id").required readText
  let name ← (slot "name").required readText
  let orderId ← (slot "orderId").required readText
  let endedAt ← (slot "processingEndedAt").optional Timestamp.ofJson
  let startedAt ← (slot "processingStartedAt").optional Timestamp.ofJson
  let retryOf ← (slot "retryOf").optional readText
  let status ← (slot "status").required ItemStatus.ofJson
  .ok { id, orderId, company, documentType, name, status, files, retryOf, startedAt, endedAt,
        error, createdAt }

def toJson (i : Item) : Json :=
  .object
    [("id", .string i.id), ("orderId", .string i.orderId), ("companyId", .string i.company),
      ("documentTypeId", .string i.documentType), ("name", .string i.name),
      ("status", .string i.status.name), ("files", .array (i.files.map FileRef.toJson)),
      ("retryOf", Json.ofOption .string i.retryOf),
      ("processingStartedAt", Json.ofOption Timestamp.toJson i.startedAt),
      ("processingEndedAt", Json.ofOption Timestamp.toJson i.endedAt),
      ("errorMessage", Json.ofOption .string i.error), ("createdAt", i.createdAt.toJson)]

end Item

/-- An order with the times of its creation and of its last change. -/
structure DatedOrder where
  order : Order
  createdAt : Timestamp
  updatedAt : Timestamp
  deriving DecidableEq, Repr

namespace DatedOrder

def fieldNames : List String :=
  ["id", "name", "status", "totalItems", "completedItems", "failedItems", "mappingFile",
    "mappingKeys", "reportPaths", "errorMessage", "createdAt", "updatedAt"]

def ofJson : Read DatedOrder := fun doc => do
  let slot ← slots fieldNames doc
  let completed ← (slot "completedItems").required (readNat WholeRange.unsigned32)
  let createdAt ← (slot "createdAt").required Timestamp.ofJson
  let error ← (slot "errorMessage").optional readText
  let failed ← (slot "failedItems").required (readNat WholeRange.unsigned32)
  let id ← (slot "id").required readText
  let mappingFile ← (slot "mappingFile").optional readText
  let mappingKeys ← (slot "mappingKeys").optional (readList readText)
  let name ← (slot "name").optional readText
  let reportPaths ← (slot "reportPaths").required (readList readText)
  let status ← (slot "status").required OrderStatus.ofJson
  let total ← (slot "totalItems").required (readNat WholeRange.unsigned32)
  let updatedAt ← (slot "updatedAt").required Timestamp.ofJson
  .ok ⟨{ id, name, status, total, completed, failed, mappingFile, mappingKeys, reportPaths,
         error }, createdAt, updatedAt⟩

def toJson (d : DatedOrder) : Json :=
  let o := d.order
  .object
    [("id", .string o.id), ("name", Json.ofOption .string o.name),
      ("status", .string o.status.name), ("totalItems", Json.ofNat o.total),
      ("completedItems", Json.ofNat o.completed), ("failedItems", Json.ofNat o.failed),
      ("mappingFile", Json.ofOption .string o.mappingFile),
      ("mappingKeys", Json.ofOption Json.ofTexts o.mappingKeys),
      ("reportPaths", Json.ofTexts o.reportPaths),
      ("errorMessage", Json.ofOption .string o.error), ("createdAt", d.createdAt.toJson),
      ("updatedAt", d.updatedAt.toJson)]

end DatedOrder

namespace Outcome

def textOfJson (name : String) : Read String := fun doc => do
  let slot ← slots [name] doc
  (slot name).required readText

def ofJson : Read Outcome := fun doc => do
  let (kind, record) ← Json.splitTag "kind" doc
  match kind with
  | "payload" => (textOfJson "raw" record).map .payload
  | "failed" => (textOfJson "error" record).map .failed
  | other => .error (.unknownName other)

def toJson : Outcome → Json
  | .payload raw => .object [("kind", .string "payload"), ("raw", .string raw)]
  | .failed error => .object [("kind", .string "failed"), ("error", .string error)]

end Outcome

structure DatedResult where
  result : ExtractionResult
  recordedAt : Timestamp
  deriving DecidableEq, Repr

namespace DatedResult

def ofJson : Read DatedResult := fun doc => do
  let slot ← slots ["fileId", "itemId", "outcome", "recordedAt"] doc
  let fileId ← (slot "fileId").required readText
  let itemId ← (slot "itemId").required readText
  let outcome ← (slot "outcome").required Outcome.ofJson
  let recordedAt ← (slot "recordedAt").required Timestamp.ofJson
  .ok ⟨{ fileId, itemId, outcome }, recordedAt⟩

def toJson (d : DatedResult) : Json :=
  .object
    [("fileId", .string d.result.fileId), ("itemId", .string d.result.itemId),
      ("outcome", d.result.outcome.toJson), ("recordedAt", d.recordedAt.toJson)]

end DatedResult

structure DatedEvent where
  event : ProgressEvent
  timestamp : Timestamp
  deriving DecidableEq, Repr

namespace ProgressEvent

/-- The fields of an event that come before its time. -/
def leadingFields (e : ProgressEvent) : List (String × Json) :=
  [("orderId", .string e.orderId)] ++ Json.fieldIf "itemId" e.itemId .string ++
    [("phase", .string e.phase.name), ("status", .string e.status.name),
      ("totalItems", Json.ofNat e.total), ("completedItems", Json.ofNat e.completed),
      ("failedItems", Json.ofNat e.failed), ("message", .string e.message)]

def toJson (e : ProgressEvent) : Json :=
  .object (e.leadingFields ++ Json.fieldIf "error" e.error .string)

end ProgressEvent

namespace DatedEvent

def fieldNames : List String :=
  ["orderId", "itemId", "phase", "status", "totalItems", "completedItems", "failedItems",
    "message", "timestamp", "error"]

def ofJson : Read DatedEvent := fun doc => do
  let slot ← slots fieldNames doc
  let completed ← (slot "completedItems").required (readNat WholeRange.unsigned32)
  let error ← (slot "error").optional readText
  let failed ← (slot "failedItems").required (readNat WholeRange.unsigned32)
  let itemId ← (slot "itemId").optional readText
  let message ← (slot "message").required readText
  let orderId ← (slot "orderId").required readText
  let phase ← (slot "phase").required Phase.ofJson
  let status ← (slot "status").required OrderStatus.ofJson
  let timestamp ← (slot "timestamp").required Timestamp.ofJson
  let total ← (slot "totalItems").required (readNat WholeRange.unsigned32)
  .ok ⟨{ orderId, itemId, phase, status, total, completed, failed, message, error }, timestamp⟩

def toJson (d : DatedEvent) : Json :=
  .object (d.event.leadingFields ++ [("timestamp", d.timestamp.toJson)] ++
    Json.fieldIf "error" d.event.error .string)

end DatedEvent

end Collate
