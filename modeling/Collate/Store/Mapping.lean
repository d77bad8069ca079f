import Collate.Store.Basic

/-!
Operations on templates and bindings. A template is known by its name: saving
one of a known name changes it and keeps its id. Ids grow with every save.
-/

namespace Collate.Store

def saveTemplate (t : Template) : StoreOp Int := fun s => do
  (t.check.mapError fun fault => StoreFault.mapping (.template t.name fault))
  let s' := { s with nextTemplateId := s.nextTemplateId + 1 }
  match s.templates.find? (·.name == t.name) with
  | some known =>
    let kept := { t with id := known.id }
    .ok (known.id, { s' with
      templates := s.templates.map fun other => if other.name == t.name then kept else other })
  | none =>
    let new := { t with id := s.nextTemplateId }
    .ok (new.id, { s' with templates := s.templates ++ [new] })

/-- Whether two bindings are for the same company, document type and item
type. -/
def sameScope (a b : Binding) : Bool :=
  a.company == b.company && a.documentType == b.documentType && a.itemType == b.itemType

/-- Saves a binding, in place of an earlier one of the same scope. -/
def saveBinding (b : Binding) : StoreOp Unit := fun s =>
  if s.bindings.any (sameScope b) then
    .ok ((), { s with bindings := s.bindings.map fun c => if sameScope b c then b else c })
  else .ok ((), { s with bindings := s.bindings ++ [b] })

end Collate.Store
