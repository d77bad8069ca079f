import Collate.Service.Procedure
import Collate.Store.Mapping

/-!
Join plans for items, and saving the templates and bindings they come from.
-/

namespace Collate.Service

def boundTemplate? (binding : Option Binding) : Procedure (Option Template) :=
  match binding with
  | some b => Procedure.look (·.template? b.templateId)
  | none => pure none

/-- The join plan for a lookup: the binding's, or that of the closest
template. -/
def plan? (company documentType : String) (itemType : ItemType) : Procedure (Option JoinPlan) := do
  let binding ← Procedure.look (·.binding? company documentType itemType)
  let bound ← boundTemplate? binding
  if bound.any (·.itemType == itemType) then
    pure (resolvePlan binding (fun _ => bound) none itemType)
  else
    let best ← Procedure.look (·.bestTemplate? company documentType itemType)
    pure (resolvePlan none (fun _ => none) best itemType)

def planOf? (item : Item) : Procedure (Option JoinPlan) :=
  plan? item.company item.documentType item.itemType

/-- The join plan for an item of an order, the order's keys coming before those
of the plan. -/
def joinPlan (order : Order) (item : Item) : Procedure JoinPlan := do
  match ← planOf? item, order.mappingKeys with
  | some plan, some keys => pure (plan.withKeys keys)
  | some plan, none => pure plan
  | none, some keys => pure (JoinPlan.ofKeys item.itemType keys)
  | none, none =>
    Procedure.need (.error (.order (.mappingNotFound item.id item.company item.documentType)))

def saveTemplates : List Template → Procedure (List (String × Int))
  | [] => pure []
  | t :: rest => do
    let id ← Procedure.store (Store.saveTemplate t)
    let ids ← saveTemplates rest
    pure ((t.name, id) :: ids)

def saveBindings (ids : List (String × Int)) : List NamedBinding → Procedure Unit
  | [] => pure ()
  | b :: rest => do
    match ids.lookup b.template with
    | some id => Procedure.store (Store.saveBinding (b.toBinding id))
    | none =>
      Procedure.need (.error (.mapping (.unknownTemplate b.company b.documentType b.template)))
    saveBindings ids rest

/-- Saves a sound section and says how many templates and bindings it has. -/
def seed (mapping : MappingSection) : Procedure (Nat × Nat) := do
  Procedure.need (mapping.check.mapError .mapping)
  let ids ← saveTemplates mapping.templates
  saveBindings ids mapping.bindings
  pure (mapping.templates.length, mapping.bindings.length)

end Collate.Service
