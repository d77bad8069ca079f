import Collate.Disk
import Collate.Mapping.Json
import Collate.Mapping.Section
import Collate.Table.Json

/-!
Settings of an installation and their JSON form.
-/

namespace Collate

open Json (Read slots readText readList readNat)

namespace NamedBinding

def fieldNames : List String :=
  ["companyId", "documentTypeId", "itemType", "template", "configOverride"]

def ofJson : Read NamedBinding := fun doc => do
  let slot ← slots fieldNames doc
  let company ← (slot "companyId").required readText
  let layer ← (slot "configOverride").withDefault none (Json.readOptional ConfigLayer.ofJson)
  let documentType ← (slot "documentTypeId").required readText
  let itemType ← (slot "itemType").required ItemType.ofJson
  let template ← (slot "template").required readText
  .ok { company, documentType, itemType, template, layer }

def toJson (b : NamedBinding) : Json :=
  .object
    ([("companyId", .string b.company), ("documentTypeId", .string b.documentType),
      ("itemType", b.itemType.toJson), ("template", .string b.template)] ++
      Json.fieldIf "configOverride" b.layer ConfigLayer.toJson)

end NamedBinding

namespace MappingSection

def ofJson : Read MappingSection := fun doc => do
  let slot ← slots ["templates", "defaults"] doc
  let bindings ← (slot "defaults").withDefault [] (readList NamedBinding.ofJson)
  let templates ← (slot "templates").withDefault [] (readList Template.ofJson)
  .ok { templates, bindings }

def toJson (m : MappingSection) : Json :=
  .object
    [("templates", .array (m.templates.map Template.toJson)),
      ("defaults", .array (m.bindings.map NamedBinding.toJson))]

end MappingSection

/-- Settings of an installation. -/
structure Settings where
  version : String
  /-- Where the store is kept, if not at the usual place. -/
  databasePath : Option String
  /-- The directory of the blobs. -/
  storageRoot : String
  /-- How many workers extract documents, if not one for each processor. -/
  workerCount : Option Nat
  flatten : FlattenOptions
  rule : MatchRule
  mapping : MappingSection
  deriving DecidableEq, Repr

namespace Settings

def fieldNames : List String :=
  ["version", "databasePath", "storageRoot", "workerCount", "normalize", "matching", "mapping"]

def ofJson : Read Settings := fun doc => do
  let slot ← slots fieldNames doc
  let databasePath ← (slot "databasePath").withDefault none (Json.readOptional readText)
  let mapping ← (slot "mapping").withDefault MappingSection.empty MappingSection.ofJson
  let rule ← (slot "matching").withDefault MatchRule.tolerant MatchRule.ofJson
  let flatten ← (slot "normalize").withDefault FlattenOptions.standard FlattenOptions.ofJson
  let storageRoot ← (slot "storageRoot").required readText
  let version ← (slot "version").required readText
  let workerCount ←
    (slot "workerCount").withDefault none fun doc => (readNat WholeRange.size doc).map some
  .ok { version, databasePath, storageRoot, workerCount, flatten, rule, mapping }

def toJson (s : Settings) : Json :=
  .object ([("version", .string s.version)] ++
    Json.fieldIf "databasePath" s.databasePath .string ++
    [("storageRoot", .string s.storageRoot)] ++
    Json.fieldIf "workerCount" s.workerCount Json.ofNat ++
    [("normalize", s.flatten.toJson), ("matching", s.rule.toJson),
      ("mapping", s.mapping.toJson)])

/-- Where the store is kept, given the home directory. -/
def resolvedDatabasePath (s : Settings) (home : String) : String :=
  s.databasePath.getD (home ++ "/.ocrmerge/data/ocrmerge.db")

end Settings

end Collate
