import Collate.Proofs.Service.Actions
import Collate.Proofs.Store.Choices

/-!
Runs of requests to the service, in which requests come in between each other. The choices
made for an order while it is drafted are sealed when it is sent off: whatever is asked for
then, and however it ends, the order does not become a draft again, and its join keys, its
mapping file and its first tries stay as they are.
-/

namespace Collate.Service

open Procedure (Acts Gathers Performs)

/-- What may be asked for: a call of the service, or that a template or a binding is
saved. -/
inductive Request where
  | call (policy : Policy) (c : Call)
  | saveTemplate (t : Template)
  | saveBinding (b : Binding)

namespace Request

def procedure : Request → Procedure Unit
  | .call policy c => do let _ ← c.procedure policy; pure ()
  | .saveTemplate t => do let _ ← Procedure.store (Store.saveTemplate t); pure ()
  | .saveBinding b => Procedure.store (Store.saveBinding b)

def Issues : Request → Store.Call → Prop
  | .call _ c, k => c.Issues k
  | .saveTemplate t, k => k = .saveTemplate t
  | .saveBinding b, k => k = .saveBinding b

theorem performs (r : Request) : r.procedure.Performs r.Issues True := by
  cases r with
  | call policy c =>
    have hcall : (c.procedure policy).Performs c.Issues True :=
      (c.performs policy).mono fun _ _ hdeed => hdeed.mono fun _ => trivial
    exact Acts.bind hcall fun _ => trivial
  | saveTemplate t =>
    exact Acts.bind (Performs.store (.saveTemplate t) rfl fun _ => rfl) fun _ => trivial
  | saveBinding b => exact Performs.store (.saveBinding b) rfl fun _ => rfl

/-- Keys are set only by a call that passes them on as they were checked. -/
theorem keys_of_issues {r : Request} {id : String} {keys : List String}
    (h : r.Issues (.setMappingKeys id keys)) : ∃ policy given,
      r = .call policy (.setMappingKeys id given) ∧ checkKeys given = .ok keys := by
  cases r with
  | call policy c =>
    cases h with
    | setMappingKeys _ hkeys => exact ⟨policy, _, rfl, hkeys⟩
  | saveTemplate t => cases h
  | saveBinding b => cases h

end Request

section

variable {κ : Type} (requests : κ → Request)

/-- Whether keys were given for an order in one of some requests. They are trimmed then. -/
def Asked (id : String) (keys : List String) : Prop :=
  ∃ k policy given, requests k = .call policy (.setMappingKeys id given) ∧
    keys = given.map Text.trim ∧ ProperKeys keys

/-- What holds from one store of a run to any later one. -/
structure Abides (s s' : Store) : Prop where
  seals : s.Seals s'
  keyed : s.KeyedAs (Asked requests) → s'.KeyedAs (Asked requests)

variable {requests}

theorem abides_gathers : Gathers (Abides requests) where
  refl s := ⟨.refl s, fun h => h⟩
  trans h h' := ⟨h.seals.trans h'.seals, fun hs => h'.keyed (h.keyed hs)⟩

/-- Whatever a request does, choices that were sealed stay. -/
theorem request_abides (k : κ) : (requests k).procedure.Does (Abides requests) := by
  refine (requests k).performs.does abides_gathers.refl fun hmay hok => ?_
  have hleaves := Store.Call.leaves hok
  refine ⟨hleaves.seals, hleaves.keyedAs ?_⟩
  rintro id keys rfl
  obtain ⟨policy, given, hrequest, hkeys⟩ := Request.keys_of_issues hmay
  exact ⟨k, policy, given, hrequest, checkKeys_ok hkeys⟩

/-- In every run of requests the keys of an order are trimmed ones that were given for it, one
to three of them, different and not blank. And of an order that left the drafts, keys,
mapping file and first tries stay through all that follows, and it does not go back. -/
theorem choices_sealed {d : Desk} {x y : Scene Unit} (hempty : d.store.orders = [])
    (hx : Scene.LeadsTo (fun k => (requests k).procedure) (.alone d (pure ())) x)
    (hy : Scene.LeadsTo (fun k => (requests k).procedure) x y) :
    (∀ id o keys, x.desk.store.order? id = some o → o.mappingKeys = some keys →
      ProperKeys keys ∧ ∃ k policy given,
        requests k = .call policy (.setMappingKeys id given) ∧ keys = given.map Text.trim) ∧
    ∀ id o, x.desk.store.order? id = some o → o.status ≠ .draft →
      ∃ o', y.desk.store.order? id = some o' ∧ o'.status ≠ .draft ∧
        o'.mappingKeys = o.mappingKeys ∧ o'.mappingFile = o.mappingFile ∧
        y.desk.store.firstTries id = x.desk.store.firstTries id := by
  have hstart : (Scene.alone d (pure ())).Does (Abides requests) := ⟨trivial, nofun⟩
  have hnone : d.store.KeyedAs (Asked requests) := by
    intro id o keys ho
    rw [Store.order?, hempty] at ho
    cases ho
  obtain ⟨hdoes, hbefore⟩ := hstart.leadsTo abides_gathers request_abides hx
  obtain ⟨-, hafter⟩ := hdoes.leadsTo abides_gathers request_abides hy
  refine ⟨fun id o keys ho hkeys => ?_, hafter.seals⟩
  obtain ⟨k, policy, given, hrequest, htrimmed, hproper⟩ := hbefore.keyed hnone id o keys ho hkeys
  exact ⟨hproper, k, policy, given, hrequest, htrimmed⟩

end

/-! An order that is sent off with an item, and then all that may be tried with it. -/

private def draftPolicy : Policy := ⟨.standard, .tolerant, ⟨"blobs"⟩, .local, false⟩

private def draftRequests (k : Fin 10) : Request :=
  .call draftPolicy <| [
    .createOrder none,
    .setMappingKeys (Desk.idOf 0) [" id ", "no"],
    .addItem (Desk.idOf 0) "acme" "invoice" "scan",
    .submit (Desk.idOf 0),
    .setMappingKeys (Desk.idOf 0) ["other"],
    .addItem (Desk.idOf 0) "acme" "invoice" "late",
    .processItem (Desk.idOf 1),
    .runMerge (Desk.idOf 0),
    .retryItem (Desk.idOf 1),
    .uploadMappingFile (Desk.idOf 0) "keys.csv" []].get k

private def sentScene : Scene Unit :=
  [0, 1, 2, 3].foldl (Scene.visited fun k => (draftRequests k).procedure)
    (.alone Desk.empty (pure ()))

private def triedScene : Scene Unit :=
  [4, 5, 6, 7, 8, 9].foldl (Scene.visited fun k => (draftRequests k).procedure) sentScene

/-- The order fails, is processed again and keeps its keys and its one first try. -/
theorem choices_sealed_retried :
    sentScene.desk.store.orders.map (fun o => (o.status, o.mappingKeys)) =
      [(.processing, some ["id", "no"])] ∧
    triedScene.desk.store.items.map (·.retryOf) = [none, some (Desk.idOf 1)] ∧
    sentScene.desk.store.firstTries (Desk.idOf 0) = [Desk.idOf 1] ∧
    ∀ id o, sentScene.desk.store.order? id = some o → o.status ≠ .draft →
      ∃ o', triedScene.desk.store.order? id = some o' ∧ o'.status ≠ .draft ∧
        o'.mappingKeys = o.mappingKeys ∧ o'.mappingFile = o.mappingFile ∧
        triedScene.desk.store.firstTries id = sentScene.desk.store.firstTries id :=
  ⟨by decide +kernel, by decide +kernel, by decide +kernel,
    (choices_sealed rfl (Scene.leadsTo_visits _ _ [0, 1, 2, 3])
      (Scene.leadsTo_visits _ _ [4, 5, 6, 7, 8, 9])).2⟩

end Collate.Service
