import Collate.Proofs.Mapping.Section
import Collate.Proofs.Service.Plans

/-!
Saving a section of templates and bindings. The section is checked before anything is
saved, and what passes the check can be saved, so it is saved as a whole or not at all.
Each template then stands in the place of the one of its name, or under an id of its own,
and each binding in the place of the one for the same lookup. To save the section once
more changes no template and no binding.
-/

namespace Collate

open Procedure

namespace Store

variable {s s' : Store}

def numbered (templates : List Template) (idOf : String → Int) : List Template :=
  templates.map fun t => { t with id := idOf t.name }

def settledBindings (bindings : List NamedBinding) (idOf : String → Int) : List Binding :=
  bindings.map fun n => n.toBinding (idOf n.template)

theorem mem_numbered {templates : List Template} {t : Template} (ht : t ∈ templates)
    (idOf : String → Int) : { t with id := idOf t.name } ∈ numbered templates idOf :=
  List.mem_map.mpr ⟨t, ht, rfl⟩

theorem mem_settledBindings {bindings : List NamedBinding} {n : NamedBinding} (hn : n ∈ bindings)
    (idOf : String → Int) : n.toBinding (idOf n.template) ∈ settledBindings bindings idOf :=
  List.mem_map.mpr ⟨n, hn, rfl⟩

/-- What saving templates does, given the id that each of them has in the end. -/
structure SavesTemplates (new : List Template) (idOf : String → Int) (s s' : Store) : Prop where
  rest : s' = { s with templates := s'.templates, nextTemplateId := s'.nextTemplateId }
  templates : Replaces (·.name) (numbered new idOf) s.templates s'.templates
  /-- A template of the same name as one before has its id. -/
  known : ∀ o ∈ s.templates, ∀ t ∈ new, o.name = t.name → o.id = idOf t.name

theorem SavesTemplates.cons {t : Template} {rest : List Template} {idOf : String → Int}
    {s₁ : Store} (hfirst : SavesTemplate t (idOf t.name) s s₁)
    (hrest : SavesTemplates rest idOf s₁ s') (hnew : ∀ r ∈ rest, r.name ≠ t.name) :
    SavesTemplates (t :: rest) idOf s s' where
  rest := by
    rw [hrest.rest, hfirst.rest]
  templates := hfirst.templates.cons hrest.templates (List.forall_mem_map.mpr hnew)
  known o ho u hu hname := by
    rcases List.mem_cons.mp hu with rfl | hlater
    · exact hfirst.known o ho hname
    · have hother : t.name ≠ o.name := fun hsame => hnew u hlater (hsame.trans hname).symm
      have hkept : o ∈ s₁.templates :=
        (hfirst.templates o).mpr (.inr ⟨ho, List.forall_mem_singleton.mpr hother⟩)
      exact hrest.known o hkept u hlater hname

/-- The ids of other templates make no difference. -/
theorem SavesTemplates.congr {templates : List Template} {idOf idOf' : String → Int}
    (h : SavesTemplates templates idOf s s') (hsame : ∀ t ∈ templates, idOf t.name = idOf' t.name) :
    SavesTemplates templates idOf' s s' where
  rest := h.rest
  templates := by
    have hnumbered : numbered templates idOf' = numbered templates idOf :=
      List.map_congr_left fun t ht => by rw [hsame t ht]
    rw [hnumbered]
    exact h.templates
  known o ho t ht hname := by
    rw [← hsame t ht]
    exact h.known o ho t ht hname

structure SavesBindings (new : List Binding) (s s' : Store) : Prop where
  rest : s' = { s with bindings := s'.bindings }
  bindings : Replaces (·.scope) new s.bindings s'.bindings

theorem SavesBindings.cons {b : Binding} {rest : List Binding} {s₁ : Store}
    (hfirst : SavesBinding b s s₁) (hrest : SavesBindings rest s₁ s')
    (hnew : ∀ c ∈ rest, c.scope ≠ b.scope) : SavesBindings (b :: rest) s s' where
  rest := by
    rw [hrest.rest, hfirst.rest]
  bindings := hfirst.bindings.cons hrest.bindings hnew

/-- What saving a section does, given the id that each of its templates has in the end. -/
structure Seeded (m : MappingSection) (idOf : String → Int) (s s' : Store) : Prop where
  /-- Nothing but templates and bindings changes. -/
  rest : s' = { s with
    templates := s'.templates, nextTemplateId := s'.nextTemplateId, bindings := s'.bindings }
  /-- No two templates have the same name or id, and no two bindings are for the same. -/
  catalogued : s'.Catalogued
  templates : Replaces (·.name) (numbered m.templates idOf) s.templates s'.templates
  /-- A template of the same name as one before has its id. -/
  known : ∀ o ∈ s.templates, ∀ t ∈ m.templates, o.name = t.name → o.id = idOf t.name
  bindings : Replaces (·.scope) (settledBindings m.bindings idOf) s.bindings s'.bindings

theorem Seeded.mem_templates {m : MappingSection} {idOf : String → Int}
    (h : Seeded m idOf s s') {t : Template} (ht : t ∈ m.templates) :
    { t with id := idOf t.name } ∈ s'.templates :=
  (h.templates _).mpr (.inl (mem_numbered ht idOf))

theorem Seeded.mem_bindings {m : MappingSection} {idOf : String → Int}
    (h : Seeded m idOf s s') {n : NamedBinding} (hn : n ∈ m.bindings) :
    n.toBinding (idOf n.template) ∈ s'.bindings :=
  (h.bindings _).mpr (.inl (mem_settledBindings hn idOf))

end Store

namespace Service

variable {d : Desk}

/-! Saving templates. -/

theorem saveTemplates_run {templates : List Template} (h : d.store.Catalogued)
    (hchecked : ∀ t ∈ templates, t.check = .ok ()) (hnames : (templates.map (·.name)).Nodup) :
    ∃ ids idOf s', (saveTemplates templates).run d = (.ok ids, { d with store := s' }) ∧
      (∀ t ∈ templates, ids.lookup t.name = some (idOf t.name)) ∧ s'.Catalogued ∧
      Store.SavesTemplates templates idOf d.store s' := by
  induction templates generalizing d with
  | nil =>
    exact ⟨[], fun _ => 0, d.store, rfl, nofun, h, rfl, Store.replaces_nil _ _,
      fun _ _ _ ht => nomatch ht⟩
  | cons t rest ih =>
    obtain ⟨hsound, hchecked⟩ := List.forall_mem_cons.mp hchecked
    obtain ⟨hnew, hnames⟩ := List.nodup_cons.mp hnames
    have hnew : ∀ r ∈ rest, r.name ≠ t.name := fun r hr hsame =>
      hnew (List.mem_map.mpr ⟨r, hr, hsame⟩)
    obtain ⟨id, s₁, hsaved⟩ := Store.exists_saveTemplate hsound d.store
    obtain ⟨h₁, hfirst⟩ := h.saveTemplate hsaved
    obtain ⟨ids, idOf, s', hrun, hids, h', hrest⟩ :=
      ih (d := { d with store := s₁ }) h₁ hchecked hnames
    -- the first template has its id, and no later one has its name
    let idOf' := fun name => if name = t.name then id else idOf name
    have hid : idOf' t.name = id := if_pos rfl
    have hkept : ∀ r ∈ rest, idOf r.name = idOf' r.name := fun r hr => (if_neg (hnew r hr)).symm
    refine ⟨(t.name, id) :: ids, idOf', s', ?_, fun r hr => ?_, h',
      .cons (hid.symm ▸ hfirst) (hrest.congr hkept) hnew⟩
    · rw [saveTemplates, run_bind_ok (run_store_ok hsaved), run_bind_ok hrun]
      rfl
    · rw [List.lookup_cons]
      rcases List.mem_cons.mp hr with rfl | hlater
      · rw [beq_self_eq_true, hid]
      · rw [← hkept r hlater, beq_eq_false_iff_ne.mpr (hnew r hlater)]
        exact hids r hlater

/-- Templates that are on record already are saved again under their ids. -/
theorem saveTemplates_again {templates : List Template} {idOf : String → Int}
    (h : d.store.Catalogued) (hchecked : ∀ t ∈ templates, t.check = .ok ())
    (hthere : ∀ t ∈ templates, { t with id := idOf t.name } ∈ d.store.templates) :
    ∃ ids next, (saveTemplates templates).run d =
        (.ok ids, { d with store := { d.store with nextTemplateId := next } }) ∧
      (∀ t ∈ templates, ids.lookup t.name = some (idOf t.name)) ∧
      { d.store with nextTemplateId := next }.Catalogued := by
  induction templates generalizing d with
  | nil => exact ⟨[], d.store.nextTemplateId, rfl, nofun, h⟩
  | cons t rest ih =>
    obtain ⟨hsound, hchecked⟩ := List.forall_mem_cons.mp hchecked
    obtain ⟨hfirst, hthere⟩ := List.forall_mem_cons.mp hthere
    have hsaved := h.saveTemplate_again hsound hfirst
    obtain ⟨ids, next, hrun, hids, h'⟩ := ih
      (d := { d with store := { d.store with nextTemplateId := d.store.nextTemplateId + 1 } })
      (h.saveTemplate hsaved).1 hchecked hthere
    refine ⟨(t.name, idOf t.name) :: ids, next, ?_, fun r hr => ?_, h'⟩
    · rw [saveTemplates, run_bind_ok (run_store_ok hsaved), run_bind_ok hrun]
      rfl
    · rw [List.lookup_cons]
      by_cases hname : r.name = t.name
      · rw [hname, beq_self_eq_true]
      · rw [beq_eq_false_iff_ne.mpr hname]
        rcases List.mem_cons.mp hr with rfl | hlater
        · exact absurd rfl hname
        · exact hids r hlater

/-! Saving bindings. -/

section

variable {bindings : List NamedBinding} {ids : List (String × Int)} {idOf : String → Int}
  (hids : ∀ n ∈ bindings, ids.lookup n.template = some (idOf n.template))

include hids

theorem saveBindings_run (h : d.store.Catalogued) (hscopes : (bindings.map (·.scope)).Nodup) :
    ∃ s', (saveBindings ids bindings).run d = (.ok (), { d with store := s' }) ∧ s'.Catalogued ∧
      Store.SavesBindings (Store.settledBindings bindings idOf) d.store s' := by
  induction bindings generalizing d with
  | nil => exact ⟨d.store, rfl, h, rfl, Store.replaces_nil _ _⟩
  | cons n rest ih =>
    obtain ⟨hid, hids⟩ := List.forall_mem_cons.mp hids
    obtain ⟨hnew, hscopes⟩ := List.nodup_cons.mp hscopes
    obtain ⟨s₁, hsaved, h₁, hfirst⟩ := h.saveBinding (n.toBinding (idOf n.template))
    obtain ⟨s', hrun, h', hrest⟩ := ih (d := { d with store := s₁ }) hids h₁ hscopes
    refine ⟨s', ?_, h', .cons hfirst hrest fun c hc => ?_⟩
    · rw [saveBindings, hid, run_bind_ok (run_store_ok hsaved), hrun]
    · obtain ⟨r, hr, rfl⟩ := List.mem_map.mp hc
      exact fun hsame => hnew (List.mem_map.mpr ⟨r, hr, hsame⟩)

/-- Bindings that are on record already are saved again without any change. -/
theorem saveBindings_again (h : d.store.Catalogued)
    (hthere : ∀ n ∈ bindings, n.toBinding (idOf n.template) ∈ d.store.bindings) :
    (saveBindings ids bindings).run d = (.ok (), d) := by
  induction bindings with
  | nil => rfl
  | cons n rest ih =>
    obtain ⟨hid, hids⟩ := List.forall_mem_cons.mp hids
    obtain ⟨hfirst, hthere⟩ := List.forall_mem_cons.mp hthere
    rw [saveBindings, hid, run_bind_ok (run_store_ok (h.saveBinding_again hfirst)), ih hids hthere]

end

/-! Saving a section. -/

theorem seed_refused {m : MappingSection} {fault : MappingFault} (hcheck : m.check = .error fault)
    (d : Desk) : (seed m).run d = (.error (.mapping fault), d) := by
  rw [seed, hcheck]
  rfl

theorem run_seed {m : MappingSection} (hsound : m.Sound) {ids : List (String × Int)}
    {d₁ d₂ : Desk} (htemplates : (saveTemplates m.templates).run d = (.ok ids, d₁))
    (hbindings : (saveBindings ids m.bindings).run d₁ = (.ok (), d₂)) :
    (seed m).run d = (.ok (m.templates.length, m.bindings.length), d₂) := by
  have hchecked : (need (m.check.mapError .mapping)).run d = (.ok (), d) := by
    rw [MappingSection.check_eq_ok_iff.mpr hsound]
    rfl
  rw [seed, run_bind_ok hchecked, run_bind_ok htemplates, run_bind_ok hbindings]
  rfl

/-- Every binding finds the id of its template. -/
theorem lookup_of_named {m : MappingSection} (hsound : m.Sound) {ids : List (String × Int)}
    {idOf : String → Int} (hids : ∀ t ∈ m.templates, ids.lookup t.name = some (idOf t.name)) :
    ∀ n ∈ m.bindings, ids.lookup n.template = some (idOf n.template) := by
  intro n hn
  obtain ⟨t, ht, hname⟩ := hsound.named n hn
  rw [← hname]
  exact hids t ht

/-- A sound section is saved as a whole. -/
theorem seed_run {m : MappingSection} (hsound : m.Sound) (h : d.store.Catalogued) :
    ∃ idOf s', (seed m).run d =
        (.ok (m.templates.length, m.bindings.length), { d with store := s' }) ∧
      Store.Seeded m idOf d.store s' := by
  obtain ⟨ids, idOf, s₁, htemplates, hids, h₁, hsaved⟩ :=
    saveTemplates_run h hsound.checked hsound.names
  obtain ⟨s', hbindings, h', hbound⟩ := saveBindings_run (d := { d with store := s₁ })
    (lookup_of_named hsound hids) h₁ hsound.scopes
  have hrest : s' = { s₁ with bindings := s'.bindings } := hbound.rest
  have hold : s₁.bindings = d.store.bindings := by
    rw [hsaved.rest]
  refine ⟨idOf, s', run_seed hsound htemplates hbindings, ?_, h', ?_, hsaved.known, ?_⟩
  · rw [hrest, hsaved.rest]
  · rw [hrest]
    exact hsaved.templates
  · rw [← hold]
    exact hbound.bindings

/-- What was saved as a whole is saved again with nothing but the next id changed. -/
theorem seed_again {m : MappingSection} {idOf : String → Int} {s : Store} (hsound : m.Sound)
    (hseeded : Store.Seeded m idOf s d.store) : ∃ next, (seed m).run d =
      (.ok (m.templates.length, m.bindings.length),
        { d with store := { d.store with nextTemplateId := next } }) := by
  obtain ⟨ids, next, htemplates, hids, h'⟩ :=
    saveTemplates_again hseeded.catalogued hsound.checked
      fun t ht => hseeded.mem_templates ht
  have hbindings := saveBindings_again
    (d := { d with store := { d.store with nextTemplateId := next } })
    (lookup_of_named hsound hids) h'
    fun n hn => hseeded.mem_bindings hn
  exact ⟨next, run_seed hsound htemplates hbindings⟩

/-- A binding to a template of its item type decides what its lookup gives. -/
theorem plan?_of_seeded {m : MappingSection} {idOf : String → Int} {s : Store}
    (hseeded : Store.Seeded m idOf s d.store) {n : NamedBinding} (hn : n ∈ m.bindings)
    {t : Template} (ht : t ∈ m.templates) (hname : t.name = n.template)
    (htype : t.itemType = n.itemType) : (plan? n.company n.documentType n.itemType).run d =
      (.ok (some (.ofConfig t.itemType (t.config.layeredBy n.layer) (.binding (idOf t.name)))),
        d) := by
  have hbinds : d.store.Binds n.company n.documentType n.itemType
      (n.toBinding (idOf n.template)) { t with id := idOf t.name } :=
    { mem := hseeded.mem_bindings hn
      scope := rfl
      template := hseeded.mem_templates ht
      id := congrArg idOf hname
      itemType := htype }
  rw [plan?_run, Store.plan?_of_binds hseeded.catalogued hbinds]
  rfl

/-- A section that is not sound changes nothing. A sound one is saved as a whole: each of
its templates takes the place and the id of the one of its name or gets an id that no
other has, each of its bindings takes the place of the one for the same, and nothing else
changes. To save it once more changes no template and no binding, and a lookup for one of
its bindings gives the template's settings with the binding's layer, wherever the binding
names a template of its item type. -/
theorem seed_whole_or_untouched (m : MappingSection) (h : d.store.Catalogued) :
    (¬ m.Sound ∧ ∃ fault, m.check = .error fault ∧
      (seed m).run d = (.error (.mapping fault), d)) ∨
    (m.Sound ∧ ∃ idOf s', (seed m).run d =
        (.ok (m.templates.length, m.bindings.length), { d with store := s' }) ∧
      Store.Seeded m idOf d.store s' ∧
      ∀ e : Desk, e.store = s' →
        (∃ next, (seed m).run e = (.ok (m.templates.length, m.bindings.length),
          { e with store := { e.store with nextTemplateId := next } })) ∧
        ∀ n ∈ m.bindings, ∀ t ∈ m.templates, t.name = n.template → t.itemType = n.itemType →
          (plan? n.company n.documentType n.itemType).run e = (.ok (some (.ofConfig t.itemType
            (t.config.layeredBy n.layer) (.binding (idOf t.name)))), e)) := by
  cases hcheck : m.check with
  | error fault =>
    have hunsound : ¬ m.Sound := fun hsound => by
      rw [MappingSection.check_eq_ok_iff.mpr hsound] at hcheck
      cases hcheck
    exact .inl ⟨hunsound, fault, rfl, seed_refused hcheck d⟩
  | ok _ =>
    have hsound := MappingSection.check_eq_ok_iff.mp hcheck
    obtain ⟨idOf, s', hrun, hseeded⟩ := seed_run hsound h
    refine .inr ⟨hsound, idOf, s', hrun, hseeded, ?_⟩
    rintro e rfl
    exact ⟨seed_again hsound hseeded, fun n hn t ht => plan?_of_seeded hseeded hn ht⟩

/-! A section with a template that is on record already, for another item type and a
company only, and a binding whose layer clears one of its settings. -/

private def formerLedger : Template :=
  ⟨0, "ledger", .multiSource, some "acme", none, 5, ⟨none, ["id"], some "key", Dict.empty⟩⟩

private def ledger : Template :=
  ⟨0, "ledger", .singleSource, none, none, 1, ⟨some "m.csv", ["phone"], none, Dict.empty⟩⟩

private def chain : Template :=
  ⟨0, "chain", .multiSource, none, none, 1, ⟨none, ["id"], some "key", Dict.empty⟩⟩

private def unmastered : ConfigLayer := ⟨.clear, none, .keep, none⟩

private def ledgerBinding : NamedBinding :=
  ⟨"acme", "invoice", .singleSource, "ledger", some unmastered⟩

private def ledgerSection : MappingSection := ⟨[chain, ledger], [ledgerBinding]⟩

private def ledgerCalls : List Store.Call :=
  [.saveTemplate formerLedger, .saveBinding ⟨"acme", "invoice", .singleSource, 1, none⟩]

private def ledgerDesk : Desk :=
  { Desk.empty with store := ledgerCalls.foldl Store.Call.after Store.empty }

/-- The template keeps the id it had, and what the layer clears is cleared. -/
theorem seed_whole_or_untouched_same_name : ledgerDesk.store.Catalogued ∧
    ∃ s', (seed ledgerSection).run ledgerDesk = (.ok (2, 1), { ledgerDesk with store := s' }) ∧
      (plan? "acme" "invoice" .singleSource).run { ledgerDesk with store := s' } =
        (.ok (some (.ofConfig .singleSource ⟨none, ["phone"], none, Dict.empty⟩ (.binding 1))),
          { ledgerDesk with store := s' }) := by
  have hcatalogued : ledgerDesk.store.Catalogued :=
    (Store.Reached.empty.calls ledgerCalls).catalogued
  have hsound : ledgerSection.Sound :=
    MappingSection.check_eq_ok_iff.mp (by decide +kernel)
  have hknown : { formerLedger with id := 1 } ∈ ledgerDesk.store.templates := by
    decide +kernel
  rcases seed_whole_or_untouched ledgerSection hcatalogued with
    ⟨hunsound, -⟩ | ⟨-, idOf, s', hrun, hseeded, hafter⟩
  · exact absurd hsound hunsound
  · have hledger : ledger ∈ ledgerSection.templates := .tail _ (.head _)
    have hid : 1 = idOf ledger.name := hseeded.known _ hknown ledger hledger rfl
    have hplan := (hafter { ledgerDesk with store := s' } rfl).2 ledgerBinding (.head _) ledger
      hledger rfl rfl
    rw [← hid] at hplan
    exact ⟨hcatalogued, s', hrun, hplan⟩

end Service
end Collate
