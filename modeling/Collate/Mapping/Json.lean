import Collate.Json.Decode
import Collate.Mapping.Template

/-!
The JSON form of join settings, layers, templates, bindings and plans. A layer
keeps three things apart for an optional setting: not mentioned, cleared by a
null, and set.
-/

namespace Collate

open Json (Read Slot Mismatch slots readText readList readDict readWhole)

namespace ItemType

def ofJson : Read ItemType := Json.readName ofName?

def toJson (t : ItemType) : Json := .string t.name

end ItemType

namespace JoinConfig

def fieldNames : List String :=
  ["masterCsvPath", "externalJoinKeys", "internalJoinKey", "columnAliases"]

def ofJson : Read JoinConfig := fun doc => do
  let slot ← slots fieldNames doc
  let aliases ← (slot "columnAliases").withDefault Dict.empty (readDict readText)
  let externalKeys ← (slot "externalJoinKeys").withDefault [] (readList readText)
  let internalKey ← (slot "internalJoinKey").withDefault none (Json.readOptional readText)
  let masterCsv ← (slot "masterCsvPath").withDefault none (Json.readOptional readText)
  .ok { masterCsv, externalKeys, internalKey, aliases }

def toJson (c : JoinConfig) : Json :=
  .object (Json.fieldIf "masterCsvPath" c.masterCsv .string ++
    [("externalJoinKeys", Json.ofTexts c.externalKeys)] ++
    Json.fieldIf "internalJoinKey" c.internalKey .string ++
    [("columnAliases", Json.ofTextDict c.aliases)])

end JoinConfig

namespace Change

/-- Reads a change: nothing there keeps, a null clears. -/
def ofSlot {α : Type} (read : Read α) : Slot → Except Mismatch (Change α)
  | .given .null => .ok .clear
  | .given doc => (read doc).map .set
  | .unnamed _ | .beyond _ => .ok .keep

/-- The field of a change, if there is anything to write. -/
def toField {α : Type} (name : String) (write : α → Json) : Change α → List (String × Json)
  | .keep => []
  | .clear => [(name, .null)]
  | .set value => [(name, write value)]

end Change

namespace ConfigLayer

def ofJson : Read ConfigLayer := fun doc => do
  let slot ← slots JoinConfig.fieldNames doc
  let aliases ← (slot "columnAliases").withDefault none (Json.readOptional (readDict readText))
  let externalKeys ←
    (slot "externalJoinKeys").withDefault none (Json.readOptional (readList readText))
  let internalKey ← Change.ofSlot readText (slot "internalJoinKey")
  let masterCsv ← Change.ofSlot readText (slot "masterCsvPath")
  .ok { masterCsv, externalKeys, internalKey, aliases }

def toJson (l : ConfigLayer) : Json :=
  .object (l.masterCsv.toField "masterCsvPath" .string ++
    Json.fieldIf "externalJoinKeys" l.externalKeys Json.ofTexts ++
    l.internalKey.toField "internalJoinKey" .string ++
    Json.fieldIf "columnAliases" l.aliases Json.ofTextDict)

end ConfigLayer

namespace Template

def fieldNames : List String :=
  ["id", "name", "itemType", "companyId", "documentTypeId", "priority", "config"]

def ofJson : Read Template := fun doc => do
  let slot ← slots fieldNames doc
  let company ← (slot "companyId").withDefault none (Json.readOptional readText)
  let config ← (slot "config").withDefault JoinConfig.empty JoinConfig.ofJson
  let documentType ← (slot "documentTypeId").withDefault none (Json.readOptional readText)
  let id ← (slot "id").withDefault 0 (readWhole WholeRange.signed64)
  let itemType ← (slot "itemType").required ItemType.ofJson
  let name ← (slot "name").required readText
  let priority ← (slot "priority").withDefault usualPriority (readWhole WholeRange.signed32)
  .ok { id, name, itemType, company, documentType, priority, config }

def toJson (t : Template) : Json :=
  .object
    [("id", Json.ofInt t.id), ("name", .string t.name), ("itemType", t.itemType.toJson),
      ("companyId", Json.ofOption .string t.company),
      ("documentTypeId", Json.ofOption .string t.documentType),
      ("priority", Json.ofInt t.priority), ("config", t.config.toJson)]

end Template

namespace Binding

def fieldNames : List String :=
  ["companyId", "documentTypeId", "itemType", "templateId", "configOverride"]

def ofJson : Read Binding := fun doc => do
  let slot ← slots fieldNames doc
  let company ← (slot "companyId").required readText
  let layer ← (slot "configOverride").withDefault none (Json.readOptional ConfigLayer.ofJson)
  let documentType ← (slot "documentTypeId").required readText
  let itemType ← (slot "itemType").required ItemType.ofJson
  let templateId ← (slot "templateId").required (readWhole WholeRange.signed64)
  .ok { company, documentType, itemType, templateId, layer }

def toJson (b : Binding) : Json :=
  .object
    ([("companyId", .string b.company), ("documentTypeId", .string b.documentType),
      ("itemType", b.itemType.toJson), ("templateId", Json.ofInt b.templateId)] ++
      Json.fieldIf "configOverride" b.layer ConfigLayer.toJson)

end Binding

namespace PlanOrigin

def templateIdOfJson : Read Int := fun doc => do
  let slot ← slots ["template_id"] doc
  (slot "template_id").required (readWhole WholeRange.signed64)

def ofJson : Read PlanOrigin := fun doc => do
  let (kind, record) ← Json.splitTag "kind" doc
  match kind with
  | "default" => (templateIdOfJson record).map .binding
  | "template" => (templateIdOfJson record).map .template
  | "order_keys" =>
    match record with
    | .array (_ :: _) => .error .tooLong
    | _ => .ok .orderKeys
  | other => .error (.unknownName other)

def toJson : PlanOrigin → Json
  | .binding id => .object [("kind", .string "default"), ("template_id", Json.ofInt id)]
  | .template id => .object [("kind", .string "template"), ("template_id", Json.ofInt id)]
  | .orderKeys => .object [("kind", .string "order_keys")]

end PlanOrigin

namespace JoinPlan

def fieldNames : List String :=
  ["itemType", "masterCsvPath", "externalJoinKeys", "internalJoinKey", "columnAliases", "origin"]

def ofJson : Read JoinPlan := fun doc => do
  let slot ← slots fieldNames doc
  let aliases ← (slot "columnAliases").required (readDict readText)
  let externalKeys ← (slot "externalJoinKeys").required (readList readText)
  let internalKey ← (slot "internalJoinKey").optional readText
  let itemType ← (slot "itemType").required ItemType.ofJson
  let masterCsv ← (slot "masterCsvPath").optional readText
  let origin ← (slot "origin").required PlanOrigin.ofJson
  .ok { itemType, masterCsv, externalKeys, internalKey, aliases, origin }

def toJson (p : JoinPlan) : Json :=
  .object
    [("itemType", p.itemType.toJson), ("masterCsvPath", Json.ofOption .string p.masterCsv),
      ("externalJoinKeys", Json.ofTexts p.externalKeys),
      ("internalJoinKey", Json.ofOption .string p.internalKey),
      ("columnAliases", Json.ofTextDict p.aliases), ("origin", p.origin.toJson)]

end JoinPlan

end Collate
