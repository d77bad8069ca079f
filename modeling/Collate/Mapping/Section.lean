import Collate.Mapping.Template

/-!
Templates and bindings as they are written down together. A binding names its
template, since the template has no id yet. A section is sound when every
template is, no name and no triple of a binding occurs twice, and every binding
names a template of the section.
-/

namespace Collate

/-- A binding that names its template. -/
structure NamedBinding where
  company : String
  documentType : String
  itemType : ItemType
  template : String
  layer : Option ConfigLayer
  deriving DecidableEq, Repr

namespace NamedBinding

def scope (b : NamedBinding) : String × String × ItemType :=
  (b.company, b.documentType, b.itemType)

def toBinding (b : NamedBinding) (templateId : Int) : Binding where
  company := b.company
  documentType := b.documentType
  itemType := b.itemType
  templateId := templateId
  layer := b.layer

end NamedBinding

structure MappingSection where
  templates : List Template
  bindings : List NamedBinding
  deriving DecidableEq, Repr

inductive MappingFault where
  | template (name : String) (fault : TemplateFault)
  | repeatedTemplate (name : String)
  | unknownTemplate (company documentType template : String)
  | repeatedBinding (company documentType : String) (itemType : ItemType)
  deriving DecidableEq, Repr

def MappingFault.message : MappingFault → String
  | .template name fault => s!"Invalid mapping template '{name}': {fault.message}"
  | .repeatedTemplate name => s!"Invalid mapping template '{name}': Duplicate template name"
  | .unknownTemplate company documentType name =>
    s!"Invalid mapping default for {company}/{documentType}: Unknown template '{name}'"
  | .repeatedBinding company documentType itemType =>
    s!"Invalid mapping default for {company}/{documentType}: " ++
      s!"Duplicate default for item type {itemType.name}"

namespace MappingSection

def empty : MappingSection := ⟨[], []⟩

/-- Checks templates, some names being taken already. -/
def checkTemplates (taken : List String) : List Template → Except MappingFault Unit
  | [] => .ok ()
  | t :: rest => do
    t.check.mapError (.template t.name)
    if taken.contains t.name then .error (.repeatedTemplate t.name)
    else checkTemplates (t.name :: taken) rest

/-- Checks bindings to templates of some names, some triples being taken
already. -/
def checkBindings (names : List String) (taken : List (String × String × ItemType)) :
    List NamedBinding → Except MappingFault Unit
  | [] => .ok ()
  | b :: rest =>
    if !names.contains b.template then
      .error (.unknownTemplate b.company b.documentType b.template)
    else if taken.contains b.scope then
      .error (.repeatedBinding b.company b.documentType b.itemType)
    else checkBindings names (b.scope :: taken) rest

/-- Checks a section. -/
def check (m : MappingSection) : Except MappingFault Unit := do
  checkTemplates [] m.templates
  checkBindings (m.templates.map (·.name)) [] m.bindings

end MappingSection

end Collate
