import Collate.Proofs.Service.Intake
import Collate.Proofs.Store.Catalogue

/-!
Which join plan a lookup gives. The binding for exactly this company, document type and
item type comes first, as long as the template it names is there and of the item type;
then the template that leads among those that apply. A lookup gives no plan exactly if
there is neither.
-/

namespace Collate

def JoinConfig.layeredBy (config : JoinConfig) (layer : Option ConfigLayer) : JoinConfig :=
  match layer with
  | some layer => config.layered layer
  | none => config

namespace Store

variable {s : Store} {company documentType : String} {itemType : ItemType}

/-- Whether a binding on record is for a lookup and stands for a template of its item
type. -/
structure Binds (s : Store) (company documentType : String) (itemType : ItemType) (b : Binding)
    (t : Template) : Prop where
  mem : b ∈ s.bindings
  scope : b.scope = (company, documentType, itemType)
  template : t ∈ s.templates
  id : t.id = b.templateId
  itemType : t.itemType = itemType

/-- What a lookup is to give. -/
inductive Plans (s : Store) (company documentType : String) (itemType : ItemType) :
    Option JoinPlan → Prop
  | bound {b : Binding} {t : Template} (h : s.Binds company documentType itemType b t) :
      Plans s company documentType itemType
        (some (.ofConfig t.itemType (t.config.layeredBy b.layer) (.binding t.id)))
  | chosen {t : Template} (hunbound : ∀ b u, ¬ s.Binds company documentType itemType b u)
      (h : t.Leads s.templates company documentType itemType) :
      Plans s company documentType itemType
        (some (.ofConfig t.itemType t.config (.template t.id)))
  | nothing (hunbound : ∀ b u, ¬ s.Binds company documentType itemType b u)
      (h : ∀ t ∈ s.templates, ¬ t.AppliesTo company documentType itemType) :
      Plans s company documentType itemType none

theorem plan?_of_binds (hs : s.Catalogued) {b : Binding} {t : Template}
    (h : s.Binds company documentType itemType b t) : s.plan? company documentType itemType =
      some (.ofConfig t.itemType (t.config.layeredBy b.layer) (.binding t.id)) := by
  have hbinding := hs.binding?_eq_some_iff.mpr ⟨h.mem, h.scope⟩
  have htemplate := hs.template?_eq_some_iff.mpr ⟨h.template, h.id⟩
  simp only [plan?, resolvePlan, hbinding, htemplate, if_pos h.itemType]
  rfl

theorem plan?_of_unbound (hs : s.Catalogued)
    (hunbound : ∀ b t, ¬ s.Binds company documentType itemType b t) :
    s.plan? company documentType itemType =
      (selectTemplate s.templates company documentType itemType).map fun t =>
        .ofConfig t.itemType t.config (.template t.id) := by
  rw [plan?, hs.bestTemplate?_eq]
  cases hbinding : s.binding? company documentType itemType with
  | none => rfl
  | some b =>
    obtain ⟨hb, hscope⟩ := hs.binding?_eq_some_iff.mp hbinding
    cases htemplate : s.template? b.templateId with
    | none => simp only [resolvePlan, htemplate]
    | some t =>
      obtain ⟨ht, hid⟩ := hs.template?_eq_some_iff.mp htemplate
      have hother : t.itemType ≠ itemType := fun htype => hunbound b t ⟨hb, hscope, ht, hid, htype⟩
      simp only [resolvePlan, htemplate, if_neg hother]

/-- A lookup gives what it is to give. -/
theorem Catalogued.plans_iff (hs : s.Catalogued) (plan : Option JoinPlan) :
    s.Plans company documentType itemType plan ↔
      plan = s.plan? company documentType itemType := by
  constructor
  · intro h
    cases h with
    | bound h => exact (plan?_of_binds hs h).symm
    | chosen hunbound h =>
      rw [plan?_of_unbound hs hunbound, (selectTemplate_eq_some_iff hs.ids).mpr h]
      rfl
    | nothing hunbound h =>
      rw [plan?_of_unbound hs hunbound, selectTemplate_eq_none_iff.mpr h]
      rfl
  · rintro rfl
    by_cases hbound : ∃ b t, s.Binds company documentType itemType b t
    · obtain ⟨b, t, h⟩ := hbound
      rw [plan?_of_binds hs h]
      exact .bound h
    · have hunbound : ∀ b t, ¬ s.Binds company documentType itemType b t := fun b t h =>
        hbound ⟨b, t, h⟩
      rw [plan?_of_unbound hs hunbound]
      cases hchosen : selectTemplate s.templates company documentType itemType with
      | none => exact .nothing hunbound (selectTemplate_eq_none_iff.mp hchosen)
      | some t => exact .chosen hunbound (selectTemplate_leads hchosen)

/-- A plan is of the item type that was asked for. -/
theorem Plans.typed {plan : JoinPlan}
    (h : s.Plans company documentType itemType (some plan)) : plan.itemType = itemType := by
  cases h with
  | bound h => exact h.itemType
  | chosen _ h => exact h.applies.itemType

/-- In a store that operations lead to, a lookup gives the plan of the binding for the
company, document type and item type, if its template is there and of the item type, else
that of the template of the item type whose scope admits the lookup and whose scope,
priority and id come first, and none exactly if there is no such template. The plan is of
the item type asked for. To look through the candidates only finds the same template as
to look through all, and the order in which templates of different ids are listed makes
no difference. -/
theorem Reached.plan?_resolved {d : Desk} (h : d.store.Reached) (company documentType : String)
    (itemType : ItemType) : ∃ plan,
      (Service.plan? company documentType itemType).run d = (.ok plan, d) ∧
      (∀ other, d.store.Plans company documentType itemType other ↔ other = plan) ∧
      (∀ found, plan = some found → found.itemType = itemType) ∧
      d.store.bestTemplate? company documentType itemType =
        selectTemplate d.store.templates company documentType itemType ∧
      ∀ templates others : List Template, (templates.map (·.id)).Nodup →
        others.Perm templates → selectTemplate others company documentType itemType =
          selectTemplate templates company documentType itemType := by
  have hs := h.catalogued
  refine ⟨d.store.plan? company documentType itemType, Service.plan?_run _ _ _ _,
    hs.plans_iff, fun found hfound => ?_, hs.bestTemplate?_eq _ _ _,
    fun _ _ hids hperm => selectTemplate_perm hids hperm⟩
  exact ((hs.plans_iff (some found)).mpr hfound.symm).typed

/-! A store with a template for every company, one for a single company, and a binding to
a template that takes several sources. -/

private def everyones : Template :=
  ⟨0, "everyone's", .singleSource, none, none, 1, ⟨none, ["id"], none, Dict.empty⟩⟩

private def ownOne : Template :=
  ⟨0, "own", .singleSource, some "acme", none, 9, ⟨none, ["phone"], none, Dict.empty⟩⟩

private def chained : Template :=
  ⟨0, "chained", .multiSource, none, none, 1, ⟨none, ["id"], some "key", Dict.empty⟩⟩

private def plannedCalls : List Call :=
  [.saveTemplate everyones, .saveTemplate ownOne, .saveTemplate chained,
    .saveBinding ⟨"acme", "invoice", .singleSource, 3, none⟩]

private def plannedDesk : Desk :=
  { Desk.empty with store := plannedCalls.foldl Call.after Store.empty }

/-- The binding names a template of the wrong item type, and of the others the company's own
one comes first, whatever its priority. -/
theorem Reached.plan?_resolved_wrong_type : plannedDesk.store.Reached ∧
    (Service.plan? "acme" "invoice" .singleSource).run plannedDesk =
      (.ok (some (.ofConfig .singleSource ownOne.config (.template 2))), plannedDesk) ∧
    plannedDesk.store.Plans "acme" "invoice" .singleSource
      (some (.ofConfig .singleSource ownOne.config (.template 2))) := by
  have hreached : plannedDesk.store.Reached := Reached.empty.calls plannedCalls
  have htemplates : plannedDesk.store.templates =
      [{ everyones with id := 1 }, { ownOne with id := 2 }, { chained with id := 3 }] := by
    decide +kernel
  have hbindings : plannedDesk.store.bindings =
      [⟨"acme", "invoice", .singleSource, 3, none⟩] := by
    decide +kernel
  have hunbound : ∀ b t, ¬ plannedDesk.store.Binds "acme" "invoice" .singleSource b t := by
    rintro b t ⟨hb, -, ht, hid, htype⟩
    rw [hbindings, List.mem_singleton] at hb
    rw [htemplates] at ht
    subst hb
    revert t
    decide +kernel
  have hchosen : selectTemplate plannedDesk.store.templates "acme" "invoice" .singleSource =
      some { ownOne with id := 2 } := by
    decide +kernel
  have hplans : plannedDesk.store.Plans "acme" "invoice" .singleSource
      (some (.ofConfig .singleSource ownOne.config (.template 2))) :=
    .chosen hunbound (selectTemplate_leads hchosen)
  obtain ⟨plan, hrun, honly, -⟩ := hreached.plan?_resolved "acme" "invoice" .singleSource
  exact ⟨hreached, (honly _).mp hplans ▸ hrun, hplans⟩

end Store

end Collate
