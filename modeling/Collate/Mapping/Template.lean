import Collate.Dict
import Collate.Text.Blank
import Collate.Text.Unknown

/-!
Join settings and the templates that carry them. A template may be bound to a
company, to a document type, to both or to neither. A layer changes some
settings of a template: a setting it does not mention stays, an optional one may
be cleared, lists are replaced as a whole and aliases entry by entry.
-/

namespace Collate

/-- How many attachment tables an item brings along. -/
inductive ItemType where
  /-- One attachment table, or several stacked on each other. -/
  | singleSource
  /-- Several attachment tables, chained on a key of their own. -/
  | multiSource
  deriving DecidableEq, Repr

namespace ItemType

def name : ItemType → String
  | .singleSource => "single_source"
  | .multiSource => "multi_source"

def ofName? (text : String) : Option ItemType :=
  if text = "single_source" then some .singleSource
  else if text = "multi_source" then some .multiSource
  else none

def named (text : String) : Except Text.Unknown ItemType := Text.named "item type" ofName? text

/-- The item type that a number of attachments calls for. -/
def forAttachments (count : Nat) : ItemType :=
  if 1 < count then .multiSource else .singleSource

end ItemType

/-- Settings of a join. -/
structure JoinConfig where
  /-- Reference data merged in as one more attachment. -/
  masterCsv : Option String
  /-- Columns that join attachments to the primary table, best first. -/
  externalKeys : List String
  /-- Column that joins attachments to each other. -/
  internalKey : Option String
  /-- Canonical names of columns. -/
  aliases : Dict String
  deriving DecidableEq, Repr

def JoinConfig.empty : JoinConfig := ⟨none, [], none, Dict.empty⟩

/-- What a layer does to an optional setting. -/
inductive Change (α : Type) where
  | keep
  | clear
  | set (value : α)
  deriving DecidableEq, Repr

namespace Change

def apply {α : Type} (change : Change α) (old : Option α) : Option α :=
  match change with
  | .keep => old
  | .clear => none
  | .set value => some value

def andThen {α : Type} (first second : Change α) : Change α :=
  match second with
  | .keep => first
  | other => other

end Change

/-- Changes to the settings of a join. -/
structure ConfigLayer where
  masterCsv : Change String
  externalKeys : Option (List String)
  internalKey : Change String
  aliases : Option (Dict String)
  deriving DecidableEq, Repr

def ConfigLayer.empty : ConfigLayer := ⟨.keep, none, .keep, none⟩

/-- The settings with a layer on top. -/
def JoinConfig.layered (config : JoinConfig) (layer : ConfigLayer) : JoinConfig where
  masterCsv := layer.masterCsv.apply config.masterCsv
  externalKeys := layer.externalKeys.getD config.externalKeys
  internalKey := layer.internalKey.apply config.internalKey
  aliases := match layer.aliases with
    | some aliases => config.aliases.insertAll aliases.entries
    | none => config.aliases

/-- The single layer that does what two do one after the other. -/
def ConfigLayer.andThen (first second : ConfigLayer) : ConfigLayer where
  masterCsv := first.masterCsv.andThen second.masterCsv
  externalKeys := second.externalKeys.or first.externalKeys
  internalKey := first.internalKey.andThen second.internalKey
  aliases := match first.aliases, second.aliases with
    | some a, some b => some (a.insertAll b.entries)
    | a, none => a
    | none, b => b

/-- A text that is there and is more than blanks, trimmed. -/
def presentText? (text : Option String) : Option String :=
  (text.map Text.trim).filter fun t => !t.isEmpty

/-- Join settings under a name, for lookups in their scope. -/
structure Template where
  /-- Given by the store, zero before that. -/
  id : Int
  name : String
  itemType : ItemType
  /-- The company it is for, or any. -/
  company : Option String
  /-- The document type it is for, or any. -/
  documentType : Option String
  /-- Among templates of one tier the lowest wins. -/
  priority : Int
  config : JoinConfig
  deriving DecidableEq, Repr

/-- The priority of a template that names none. -/
def Template.usualPriority : Int := 100

inductive TemplateFault where
  | nameless
  | priorityNotPositive (priority : Int)
  | internalKeyMissing
  deriving DecidableEq, Repr

def TemplateFault.message : TemplateFault → String
  | .nameless => "template name must not be empty"
  | .priorityNotPositive p => s!"priority must be a positive integer, got {p}"
  | .internalKeyMissing => "multi_source templates require an internal join key"

def Template.check (t : Template) : Except TemplateFault Unit :=
  if Text.isBlankText t.name then .error .nameless
  else if t.priority < 1 then .error (.priorityNotPositive t.priority)
  else if t.itemType = .multiSource ∧ presentText? t.config.internalKey = none then
    .error .internalKeyMissing
  else .ok ()

/-- The template that stands for a company, document type and item type before
any scope is looked at, perhaps with changes of its own. -/
structure Binding where
  company : String
  documentType : String
  itemType : ItemType
  templateId : Int
  layer : Option ConfigLayer
  deriving DecidableEq, Repr

/-- Where a join plan came from. -/
inductive PlanOrigin where
  | binding (templateId : Int)
  | template (templateId : Int)
  /-- The keys chosen on the order. -/
  | orderKeys
  deriving DecidableEq, Repr

/-- Everything a merge needs to know about joining. -/
structure JoinPlan where
  itemType : ItemType
  masterCsv : Option String
  externalKeys : List String
  internalKey : Option String
  aliases : Dict String
  origin : PlanOrigin
  deriving DecidableEq, Repr

namespace JoinPlan

def ofConfig (itemType : ItemType) (config : JoinConfig) (origin : PlanOrigin) : JoinPlan where
  itemType := itemType
  masterCsv := config.masterCsv
  externalKeys := config.externalKeys
  internalKey := config.internalKey
  aliases := config.aliases
  origin := origin

def ofKeys (itemType : ItemType) (keys : List String) : JoinPlan :=
  ofConfig itemType { JoinConfig.empty with externalKeys := keys } .orderKeys

def withKeys (plan : JoinPlan) (keys : List String) : JoinPlan :=
  { plan with externalKeys := keys }

end JoinPlan

end Collate
