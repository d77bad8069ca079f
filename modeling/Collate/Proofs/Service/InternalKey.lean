import Collate.Proofs.Merge.Join
import Collate.Proofs.Service.Merging
import Collate.Proofs.Service.Seeding
import Collate.Proofs.Settings.Reload

/-!
The internal key of plans for several sources. Every template on record passes the check,
so one for several sources has an internal key. What a lookup gives is a template's
settings, perhaps with a binding's layer on top, and only such a layer can take the key
away, by clearing it or by setting it to blanks: layers are not checked.
-/

namespace Collate

inductive ConfigLayer.DropsInternalKey (layer : ConfigLayer) : Prop
  | cleared (h : layer.internalKey = .clear)
  | blank {key : String} (h : layer.internalKey = .set key) (hblank : Text.isBlankText key = true)

/-- There is an internal key, and it is not blank. -/
def JoinPlan.HasInternalKey (plan : JoinPlan) : Prop :=
  ∃ key, plan.internalKey = some key ∧ Text.isBlankText key = false

theorem presentText?_eq_none_iff {text : Option String} :
    presentText? text = none ↔ ∀ t, text = some t → Text.isBlankText t = true := by
  rw [presentText?_eq]
  cases text with
  | none => exact iff_of_true rfl nofun
  | some t => cases hblank : Text.isBlankText t <;> simp [hblank]

theorem JoinPlan.hasInternalKey_iff {plan : JoinPlan} :
    plan.HasInternalKey ↔ presentText? plan.internalKey ≠ none := by
  rw [ne_eq, presentText?_eq_none_iff, HasInternalKey]
  simp

theorem Template.internalKey_of_check {t : Template} (h : t.check = .ok ())
    (hmulti : t.itemType = .multiSource) : presentText? t.config.internalKey ≠ none := by
  intro hmissing
  unfold check at h
  split at h
  · cases h
  · split at h
    · cases h
    · rw [if_pos ⟨hmulti, hmissing⟩] at h
      cases h

/-- A layer on top of settings with an internal key takes it away exactly if it drops it. -/
theorem JoinConfig.layered_internalKey_iff {config : JoinConfig}
    (h : presentText? config.internalKey ≠ none) (layer : ConfigLayer) :
    presentText? (config.layered layer).internalKey = none ↔ layer.DropsInternalKey := by
  rw [layered, presentText?_eq_none_iff]
  cases hchange : layer.internalKey with
  | keep =>
    refine iff_of_false (fun hblank => h (presentText?_eq_none_iff.mpr hblank)) ?_
    rintro (hclear | ⟨hset, -⟩)
    · exact nomatch hchange.symm.trans hclear
    · exact nomatch hchange.symm.trans hset
  | clear => exact iff_of_true nofun (.cleared hchange)
  | set key =>
    constructor
    · exact fun hblank => .blank hchange (hblank key rfl)
    · rintro (hclear | ⟨hset, hblank⟩) t ht
      · exact nomatch hchange.symm.trans hclear
      · cases hchange.symm.trans hset
        cases ht
        exact hblank

namespace Store

variable {s s' : Store} {company documentType : String} {itemType : ItemType}

/-- The binding for a lookup has a layer that drops the internal key. -/
def DropsInternalKey (s : Store) (company documentType : String) (itemType : ItemType) : Prop :=
  ∃ b t layer, s.Binds company documentType itemType b t ∧ b.layer = some layer ∧
    layer.DropsInternalKey

/-- A store into which nothing but templates and sections of loaded settings was saved. -/
inductive Stocked : Store → Prop
  | empty : Stocked .empty
  | template {s s' : Store} {t : Template} {id : Int} (h : Stocked s)
      (hsaved : saveTemplate t s = .ok (id, s')) : Stocked s'
  | mapping {d d' : Desk} {text : String} {settings : Settings} {counts : Nat × Nat}
      (h : Stocked d.store) (hloaded : Settings.load text = .ok settings)
      (hseeded : (Service.seed settings.mapping).run d = (.ok counts, d')) : Stocked d'.store

/-- Templates and bindings can be found, and every template passes the check. -/
structure Curated (s : Store) : Prop where
  catalogued : s.Catalogued
  checked : ∀ t ∈ s.templates, t.check = .ok ()

theorem empty_curated : empty.Curated := ⟨empty_catalogued, nofun⟩

theorem check_of_saveTemplate {t : Template} {id : Int} (h : saveTemplate t s = .ok (id, s')) :
    t.check = .ok () := by
  simp only [saveTemplate, Except.bind_eq_ok, Except.mapError_eq_ok] at h
  obtain ⟨_, hcheck, -⟩ := h
  exact hcheck

theorem Curated.saveTemplate (h : s.Curated) {t : Template} {id : Int}
    (hsaved : Store.saveTemplate t s = .ok (id, s')) : s'.Curated := by
  obtain ⟨hcatalogued, hsaves⟩ := h.catalogued.saveTemplate hsaved
  refine ⟨hcatalogued, fun u hu => ?_⟩
  rcases (hsaves.templates u).mp hu with hnew | ⟨hold, -⟩
  · rw [List.mem_singleton.mp hnew]
    exact check_of_saveTemplate hsaved
  · exact h.checked u hold

theorem Curated.seeded (h : s.Curated) {m : MappingSection} {idOf : String → Int}
    (hsound : m.Sound) (hseeded : Seeded m idOf s s') : s'.Curated := by
  refine ⟨hseeded.catalogued, fun u hu => ?_⟩
  rcases (hseeded.templates u).mp hu with hnew | ⟨hold, -⟩
  · obtain ⟨t, ht, rfl⟩ := List.mem_map.mp hnew
    exact hsound.checked t ht
  · exact h.checked u hold

theorem Stocked.curated (h : s.Stocked) : s.Curated := by
  induction h with
  | empty => exact empty_curated
  | template _ hsaved ih => exact ih.saveTemplate hsaved
  | @mapping d d' text settings counts _ hloaded hseeded ih =>
    have hsound : settings.mapping.Sound := by
      obtain ⟨doc, -, hdocument⟩ := Settings.load_eq_ok_iff.mp hloaded
      obtain ⟨-, -, hcheck⟩ := Settings.ofDocument_eq_ok_iff.mp hdocument
      obtain ⟨-, -, -, hmapping⟩ := Settings.check_eq_ok_iff.mp hcheck
      exact MappingSection.check_eq_ok_iff.mp hmapping
    obtain ⟨idOf, s', hrun, hsaved⟩ := Service.seed_run hsound ih.catalogued
    cases hrun.symm.trans hseeded
    exact ih.seeded hsound hsaved

/-- A plan for several sources lacks its internal key exactly if a layer drops it. -/
theorem Curated.hasInternalKey_iff (h : s.Curated) {plan : JoinPlan}
    (hplans : s.Plans company documentType itemType (some plan))
    (hmulti : plan.itemType = .multiSource) :
    plan.HasInternalKey ↔ ¬ s.DropsInternalKey company documentType itemType := by
  rw [JoinPlan.hasInternalKey_iff]
  cases hplans with
  | @bound b t hbinds =>
    have hkey := Template.internalKey_of_check (h.checked t hbinds.template) hmulti
    -- no other binding is for the same lookup, so only this one's layer counts
    have honly : s.DropsInternalKey company documentType itemType ↔
        ∃ layer, b.layer = some layer ∧ layer.DropsInternalKey := by
      constructor
      · rintro ⟨c, u, layer, hother, hlayer, hdrops⟩
        have hsame := h.catalogued.eq_of_scope hother.mem hbinds.mem
          (hother.scope.trans hbinds.scope.symm)
        exact ⟨layer, hsame ▸ hlayer, hdrops⟩
      · rintro ⟨layer, hlayer, hdrops⟩
        exact ⟨b, t, layer, hbinds, hlayer, hdrops⟩
    rw [honly]
    cases hlayer : b.layer with
    | none => exact iff_of_true hkey fun ⟨_, hsome, _⟩ => nomatch hsome
    | some layer =>
      simp only [Option.some.injEq, exists_eq_left']
      exact not_congr (JoinConfig.layered_internalKey_iff hkey layer)
  | @chosen t hunbound hleads =>
    refine iff_of_true (Template.internalKey_of_check (h.checked t hleads.mem) hmulti) ?_
    exact fun ⟨b, u, _, hbinds, _⟩ => hunbound b u hbinds

end Store

namespace Service

variable {d : Desk}

/-- In a store that is stocked with checked templates, a plan for several sources has an
internal key that is not blank, unless it comes from a binding whose layer clears the key or
sets it to blanks; then it has none. So a merge fails for want of an internal key only after
such a layer, whatever keys were chosen for it. -/
theorem internalKey_present_iff {company documentType : String} {itemType : ItemType}
    {plan : JoinPlan} (h : d.store.Stocked)
    (hplan : (plan? company documentType itemType).run d = (.ok (some plan), d))
    (hmulti : plan.itemType = .multiSource) :
    (plan.HasInternalKey ↔ ¬ d.store.DropsInternalKey company documentType itemType) ∧
    ∀ keys rule primary attachments,
      merge (plan.withKeys keys) rule primary attachments = .error .noInternalKey →
      d.store.DropsInternalKey company documentType itemType := by
  have hcurated := h.curated
  have hplans : d.store.Plans company documentType itemType (some plan) := by
    simp only [plan?_run, Prod.mk.injEq, Except.ok.injEq, and_true] at hplan
    exact (hcurated.catalogued.plans_iff _).mpr hplan.symm
  have hiff := hcurated.hasInternalKey_iff hplans hmulti
  refine ⟨hiff, fun keys rule primary attachments hmerge => ?_⟩
  rcases merge_error hmerge with ⟨hother, -⟩ | ⟨-, -, hmissing⟩
  · cases hother
  · by_contra hkept
    exact JoinPlan.hasInternalKey_iff.mp (hiff.mpr hkept) hmissing

/-! Settings with a template for several sources that two companies share, the layer of one
of them clearing the internal key. -/

private def sharedBinding (company : String) : List (String × Json) :=
  [("companyId", .string company), ("documentTypeId", .string "invoice"),
    ("itemType", .string "multi_source"), ("template", .string "chain")]

private def sharedSettings : Json :=
  .object
    [("version", .string "1.0"), ("storageRoot", .string "left"),
      ("mapping", .object
        [("templates", .array [.object
            [("name", .string "chain"), ("itemType", .string "multi_source"),
              ("config", .object [("externalJoinKeys", .array [.string "id"]),
                ("internalJoinKey", .string "invoice_id")])]]),
          ("defaults", .array [.object (sharedBinding "beta"),
            .object (sharedBinding "acme" ++
              [("configOverride", .object [("internalJoinKey", .null)])])])])]

private def sharedLoaded : Settings where
  version := "1.0"
  databasePath := none
  storageRoot := "left"
  workerCount := none
  flatten := .standard
  rule := .tolerant
  mapping :=
    ⟨[⟨0, "chain", .multiSource, none, none, 100,
        ⟨none, ["id"], some "invoice_id", Dict.empty⟩⟩],
      [⟨"beta", "invoice", .multiSource, "chain", none⟩,
        ⟨"acme", "invoice", .multiSource, "chain", some ⟨.keep, none, .clear, none⟩⟩]⟩

private def sharedDesk : Desk := ((seed sharedLoaded.mapping).run Desk.empty).2

private def sharedPlan (internalKey : Option String) : JoinPlan :=
  ⟨.multiSource, none, ["id"], internalKey, Dict.empty, .binding 1⟩

private theorem sharedDesk_stocked : sharedDesk.store.Stocked := by
  have hsized : sharedSettings.Sized Json.depthLimit :=
    ⟨by decide +kernel, fun n => by simp (disch := decide) [sharedSettings, sharedBinding]⟩
  have hfree : sharedSettings.FloatFree := fun x => by
    simp (disch := decide) [sharedSettings, sharedBinding]
  have hfits : Settings.schema.Fits sharedSettings.sorted :=
    List.isEmpty_iff.mp (by decide +kernel)
  have hloaded : Settings.load sharedSettings.text = .ok sharedLoaded :=
    Settings.load_eq_ok_iff.mpr ⟨_, Json.read_text hsized hfree,
      Settings.ofDocument_eq_ok_iff.mpr
        ⟨hfits, by decide +kernel, Settings.check_eq_ok_iff.mpr (by decide +kernel)⟩⟩
  have hseeded : ((seed sharedLoaded.mapping).run Desk.empty).1 = .ok (1, 2) := by
    decide +kernel
  exact .mapping .empty hloaded (Prod.ext hseeded rfl)

/-- The plan of the company whose layer clears the key has none, and no merge succeeds with
it, although the template of the plan has one. -/
theorem internalKey_cleared : sharedDesk.store.Stocked ∧
    (plan? "acme" "invoice" .multiSource).run sharedDesk =
      (.ok (some (sharedPlan none)), sharedDesk) ∧
    (sharedPlan none).itemType = .multiSource ∧ ¬ (sharedPlan none).HasInternalKey ∧
    merge (sharedPlan none) .tolerant .empty [.empty, .empty] = .error .noInternalKey := by
  have hplan : sharedDesk.store.plan? "acme" "invoice" .multiSource = some (sharedPlan none) := by
    decide +kernel
  refine ⟨sharedDesk_stocked, ?_, rfl, fun ⟨_, hkey, _⟩ => (nomatch hkey), by decide +kernel⟩
  rw [plan?_run, hplan]

/-- The other company's plan has the key of the template, since no layer drops it. -/
theorem internalKey_present_unlayered : sharedDesk.store.Stocked ∧
    (plan? "beta" "invoice" .multiSource).run sharedDesk =
      (.ok (some (sharedPlan (some "invoice_id"))), sharedDesk) ∧
    ¬ sharedDesk.store.DropsInternalKey "beta" "invoice" .multiSource := by
  have hplan : sharedDesk.store.plan? "beta" "invoice" .multiSource =
      some (sharedPlan (some "invoice_id")) := by
    decide +kernel
  have hrun : (plan? "beta" "invoice" .multiSource).run sharedDesk =
      (.ok (some (sharedPlan (some "invoice_id"))), sharedDesk) := by
    rw [plan?_run, hplan]
  have hiff := (internalKey_present_iff sharedDesk_stocked hrun rfl).1
  exact ⟨sharedDesk_stocked, hrun, hiff.mp ⟨_, rfl, by decide +kernel⟩⟩

end Service

end Collate
