import Collate.Json.Reader
import Collate.Settings.Basic
import Collate.Settings.Schema

/-!
Loading settings. The text is read as a document, in which a key that is
repeated has its last value; then the document is checked against the schema,
read, and what the schema cannot say is checked.
-/

namespace Collate.Settings

/-- What the schema does not say about settings. -/
inductive Rule where
  | version (found : String)
  | noWorkers
  | noSeparator
  deriving DecidableEq, Repr

def Rule.message : Rule → String
  | .version found => s!"Unsupported config version: {found}"
  | .noWorkers => "workerCount must be at least 1"
  | .noSeparator => "normalize.flattenSeparator must not be empty"

inductive Fault where
  | unreadable (path : String) (error : DiskError)
  | notJson (error : Json.ReadError)
  | mismatch (found : Json.Mismatch)
  | schema (errors : List Schema.Error)
  | invalid (rule : Rule)
  | mapping (fault : MappingFault)

def Fault.message : Fault → String
  | .unreadable path e => s!"Failed to read config file '{path}': {e.message}"
  | .notJson e => s!"Failed to parse config JSON: {e.message}"
  | .mismatch found => s!"Failed to parse config JSON: {found.message}"
  | .schema errors =>
    "Schema validation failed: " ++ "; ".intercalate (errors.map Schema.Error.message)
  | .invalid rule => s!"Config validation failed: {rule.message}"
  | .mapping fault => fault.message

/-- The version of settings that can be loaded. -/
def knownVersion : String := "1.0"

def someText : Schema := .text 1

def itemTypeSchema : Schema :=
  .choice [ItemType.singleSource.name, ItemType.multiSource.name]

def configSchema : Schema :=
  .record []
    [("columnAliases", .map (.text 0)), ("externalJoinKeys", .list someText),
      ("internalJoinKey", .text 0), ("masterCsvPath", .text 0)]

def layerSchema : Schema :=
  .record []
    [("columnAliases", .map (.text 0)), ("externalJoinKeys", .list someText),
      ("internalJoinKey", .nullableText), ("masterCsvPath", .nullableText)]

def templateSchema : Schema :=
  .record ["name", "itemType"]
    [("companyId", .nullableText), ("config", configSchema), ("documentTypeId", .nullableText),
      ("id", .whole none), ("itemType", itemTypeSchema), ("name", someText),
      ("priority", .whole (some 1))]

def bindingSchema : Schema :=
  .record ["companyId", "documentTypeId", "itemType", "template"]
    [("companyId", someText), ("configOverride", layerSchema), ("documentTypeId", someText),
      ("itemType", itemTypeSchema), ("template", someText)]

def schema : Schema :=
  .record ["version", "storageRoot"]
    [("$schema", .text 0), ("databasePath", someText),
      ("mapping", .record []
        [("defaults", .list bindingSchema), ("templates", .list templateSchema)]),
      ("matching", .record [] [("caseInsensitive", .truth), ("trim", .truth)]),
      ("normalize", .record [] [("arrayDelimiter", .text 0), ("flattenSeparator", someText)]),
      ("storageRoot", someText), ("version", .constant knownVersion),
      ("workerCount", .whole (some 1))]

/-- Checks what the schema does not say. -/
def check (s : Settings) : Except Fault Unit :=
  if s.version ≠ knownVersion then .error (.invalid (.version s.version))
  else if s.workerCount = some 0 then .error (.invalid .noWorkers)
  else if s.flatten.separator.isEmpty then .error (.invalid .noSeparator)
  else s.mapping.check.mapError .mapping

/-- The settings of a document whose keys are in order. -/
def ofDocument (doc : Json) : Except Fault Settings := do
  match Schema.check [] schema doc with
  | [] =>
    let s ← (Json.decode ofJson doc).mapError .mismatch
    s.check
    .ok s
  | errors => .error (.schema errors)

/-- Loads settings. -/
def load (text : String) : Except Fault Settings :=
  match Json.read text with
  | .ok doc => ofDocument doc.sorted
  | .error e => .error (.notJson e)

def loadFile (d : Disk) (path : String) : Except Fault Settings :=
  match d.readText path with
  | .ok text => load text
  | .error e => .error (.unreadable path e)

end Collate.Settings
