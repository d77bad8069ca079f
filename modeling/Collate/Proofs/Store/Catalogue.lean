import Collate.Proofs.Mapping.Selection
import Collate.Proofs.Store.Reached

/-!
Templates and bindings on record. A template is known by its name and by its id, and a
binding by what it is for; saving keeps it so. Saving a template puts it in place of the
one of its name, whose id it takes over, or gives it an id that no other template has.
-/

namespace Collate

def Binding.scope (b : Binding) : String × String × ItemType :=
  (b.company, b.documentType, b.itemType)

namespace Store

variable {s s' : Store}

/-- No two templates have the same name or the same id, the ids are below the next one, and
no two bindings are for the same. -/
structure Catalogued (s : Store) : Prop where
  names : (s.templates.map (·.name)).Nodup
  ids : (s.templates.map (·.id)).Nodup
  below : ∀ t ∈ s.templates, t.id < s.nextTemplateId
  scopes : (s.bindings.map (·.scope)).Nodup

theorem Catalogued.eq_of_name (h : s.Catalogued) {t u : Template} (ht : t ∈ s.templates)
    (hu : u ∈ s.templates) (hname : t.name = u.name) : t = u :=
  List.inj_on_of_nodup_map h.names ht hu hname

theorem Catalogued.eq_of_scope (h : s.Catalogued) {b c : Binding} (hb : b ∈ s.bindings)
    (hc : c ∈ s.bindings) (hscope : b.scope = c.scope) : b = c :=
  List.inj_on_of_nodup_map h.scopes hb hc hscope

/-- What is looked for by a key that no two entries share is the entry of that key. -/
theorem find?_eq_some_iff_of_key {α κ : Type} {l : List α} {key : α → κ} {k : κ} {p : α → Bool}
    (hkeys : (l.map key).Nodup) (hp : ∀ a, p a = true ↔ key a = k) {a : α} :
    l.find? p = some a ↔ a ∈ l ∧ key a = k := by
  constructor
  · intro hfound
    exact ⟨List.mem_of_find?_eq_some hfound, (hp a).mp (List.find?_some hfound)⟩
  · rintro ⟨hmem, hkey⟩
    obtain ⟨b, hb⟩ : ∃ b, l.find? p = some b :=
      Option.isSome_iff_exists.mp (List.find?_isSome.mpr ⟨a, hmem, (hp a).mpr hkey⟩)
    have hsame : key b = key a := ((hp b).mp (List.find?_some hb)).trans hkey.symm
    rw [hb, List.inj_on_of_nodup_map hkeys (List.mem_of_find?_eq_some hb) hmem hsame]

/-- Changing entries in place keeps a key that no change touches. -/
theorem map_key_map {α κ : Type} {l : List α} {key : α → κ} {f : α → α}
    (hkeeps : ∀ a ∈ l, key (f a) = key a) : (l.map f).map key = l.map key := by
  rw [List.map_map]
  exact List.map_congr_left hkeeps

/-- Putting an entry in place of some others that are there. -/
theorem mem_map_replace {α : Type} {l : List α} {p : α → Bool} {a b : α}
    (hthere : ∃ c ∈ l, p c = true) :
    a ∈ l.map (fun c => if p c then b else c) ↔ a = b ∨ a ∈ l ∧ p a = false := by
  simp only [List.mem_map]
  constructor
  · rintro ⟨c, hc, rfl⟩
    split
    · exact .inl rfl
    · rename_i hother
      exact .inr ⟨hc, Bool.eq_false_iff.mpr hother⟩
  · rintro (rfl | ⟨ha, hother⟩)
    · obtain ⟨c, hc, hp⟩ := hthere
      exact ⟨c, hc, if_pos hp⟩
    · exact ⟨a, ha, if_neg (Bool.eq_false_iff.mp hother)⟩

/-- Putting an entry in place of itself. -/
theorem map_replace_self {α : Type} {l : List α} {p : α → Bool} {b : α}
    (hsame : ∀ c ∈ l, p c = true → c = b) : l.map (fun c => if p c then b else c) = l := by
  conv_rhs => rw [← List.map_id l]
  refine List.map_congr_left fun c hc => ?_
  split
  · rename_i hp
    exact (hsame c hc hp).symm
  · rfl

/-- Whether a list has the new entries, and of the old ones those of no new one's key. -/
def Replaces {α κ : Type} (key : α → κ) (new old final : List α) : Prop :=
  ∀ a, a ∈ final ↔ a ∈ new ∨ a ∈ old ∧ ∀ b ∈ new, key b ≠ key a

theorem replaces_nil {α κ : Type} (key : α → κ) (old : List α) : Replaces key [] old old :=
  fun a => by simp

theorem Replaces.cons {α κ : Type} {key : α → κ} {b : α} {new old middle final : List α}
    (hfirst : Replaces key [b] old middle) (hrest : Replaces key new middle final)
    (hnew : ∀ a ∈ new, key a ≠ key b) : Replaces key (b :: new) old final := by
  intro a
  rw [hrest a, hfirst a, List.forall_mem_singleton, List.mem_singleton, List.mem_cons,
    List.forall_mem_cons]
  constructor
  · rintro (hlater | ⟨rfl | ⟨hold, hother⟩, hothers⟩)
    · exact .inl (.inr hlater)
    · exact .inl (.inl rfl)
    · exact .inr ⟨hold, hother, hothers⟩
  · rintro ((rfl | hlater) | ⟨hold, hother, hothers⟩)
    · exact .inr ⟨.inl rfl, hnew⟩
    · exact .inl hlater
    · exact .inr ⟨.inr ⟨hold, hother⟩, hothers⟩

/-- Putting an entry in place of the one of its key. -/
theorem replaces_map {α κ : Type} {key : α → κ} {l : List α} {p : α → Bool} {b : α}
    (hp : ∀ a, p a = true ↔ key a = key b) (hthere : ∃ a ∈ l, key a = key b) :
    Replaces key [b] l (l.map fun a => if p a then b else a) := by
  intro a
  obtain ⟨c, hc, hkey⟩ := hthere
  rw [List.forall_mem_singleton, List.mem_singleton, mem_map_replace ⟨c, hc, (hp c).mpr hkey⟩,
    Bool.eq_false_iff, ne_eq, hp, eq_comm (a := key a)]

/-- Putting an entry of a new key at the end. -/
theorem replaces_concat {α κ : Type} {key : α → κ} {l : List α} {b : α}
    (hnew : ∀ a ∈ l, key a ≠ key b) : Replaces key [b] l (l ++ [b]) := by
  intro a
  rw [List.forall_mem_singleton, List.mem_append, or_comm]
  exact or_congr_right ⟨fun ha => ⟨ha, (hnew a ha).symm⟩, fun ha => ha.1⟩

/-- A template is found under its id. -/
theorem Catalogued.template?_eq_some_iff (h : s.Catalogued) {id : Int} {t : Template} :
    s.template? id = some t ↔ t ∈ s.templates ∧ t.id = id :=
  find?_eq_some_iff_of_key h.ids fun _ => beq_iff_eq

/-- A binding is found under what it is for. -/
theorem Catalogued.binding?_eq_some_iff (h : s.Catalogued) {company documentType : String}
    {itemType : ItemType} {b : Binding} : s.binding? company documentType itemType = some b ↔
      b ∈ s.bindings ∧ b.scope = (company, documentType, itemType) :=
  find?_eq_some_iff_of_key h.scopes fun c => by simp [Binding.scope, and_assoc]

/-! Saving a template. -/

/-- A template is saved in place of the one of its name, or as a new one. -/
theorem saveTemplate_cases {t : Template} {id : Int} (h : saveTemplate t s = .ok (id, s')) :
    (∃ known ∈ s.templates, known.name = t.name ∧ id = known.id ∧
      s' = { s with
        templates := s.templates.map fun o => if o.name == t.name then { t with id } else o
        nextTemplateId := s.nextTemplateId + 1 }) ∨
    (∀ o ∈ s.templates, o.name ≠ t.name) ∧ id = s.nextTemplateId ∧
      s' = { s with
        templates := s.templates ++ [{ t with id }]
        nextTemplateId := s.nextTemplateId + 1 } := by
  simp only [saveTemplate, Except.bind_eq_ok] at h
  obtain ⟨_, -, h⟩ := h
  split at h
  · rename_i known hknown
    cases h
    exact .inl ⟨known, List.mem_of_find?_eq_some hknown, by simpa using List.find?_some hknown,
      rfl, rfl⟩
  · rename_i hnone
    cases h
    exact .inr ⟨by simpa using hnone, rfl, rfl⟩

/-- A sound template can be saved. -/
theorem exists_saveTemplate {t : Template} (hsound : t.check = .ok ()) (s : Store) :
    ∃ id s', saveTemplate t s = .ok (id, s') := by
  simp only [saveTemplate, hsound]
  cases hfound : s.templates.find? (·.name == t.name) with
  | some known => exact ⟨_, _, rfl⟩
  | none => exact ⟨_, _, rfl⟩

structure SavesTemplate (t : Template) (id : Int) (s s' : Store) : Prop where
  rest : s' = { s with templates := s'.templates, nextTemplateId := s'.nextTemplateId }
  templates : Replaces (·.name) [{ t with id }] s.templates s'.templates
  known : ∀ o ∈ s.templates, o.name = t.name → o.id = id

theorem Catalogued.saveTemplate (h : s.Catalogued) {t : Template} {id : Int}
    (hok : saveTemplate t s = .ok (id, s')) : s'.Catalogued ∧ SavesTemplate t id s s' := by
  rcases saveTemplate_cases hok with ⟨known, hknown, hname, rfl, rfl⟩ | ⟨hnew, rfl, rfl⟩
  · have hids : ∀ o ∈ s.templates, o.name = t.name → o.id = known.id := fun o ho hsame => by
      rw [h.eq_of_name ho hknown (hsame.trans hname.symm)]
    have hkeeps : ∀ o ∈ s.templates,
        (if o.name == t.name then { t with id := known.id } else o).name = o.name ∧
        (if o.name == t.name then { t with id := known.id } else o).id = o.id := by
      intro o ho
      split
      · rename_i hsame
        have hsame := beq_iff_eq.mp hsame
        exact ⟨hsame.symm, (hids o ho hsame).symm⟩
      · exact ⟨rfl, rfl⟩
    refine ⟨⟨?_, ?_, ?_, h.scopes⟩, rfl, replaces_map ?_ ⟨known, hknown, hname⟩, hids⟩
    · rw [map_key_map fun o ho => (hkeeps o ho).1]
      exact h.names
    · rw [map_key_map fun o ho => (hkeeps o ho).2]
      exact h.ids
    · intro u hu
      obtain ⟨o, ho, rfl⟩ := List.mem_map.mp hu
      have hbelow := h.below o ho
      rw [(hkeeps o ho).2]
      exact Int.lt_add_one_of_le (Int.le_of_lt hbelow)
    · exact fun o => beq_iff_eq
  · refine ⟨⟨nodup_map_concat h.names hnew, nodup_map_concat h.ids ?_, ?_, h.scopes⟩, rfl,
      replaces_concat hnew, fun o ho hsame => absurd hsame (hnew o ho)⟩
    · exact fun o ho => ne_of_lt (h.below o ho)
    · intro u hu
      rcases List.mem_append.mp hu with hold | hlast
      · exact Int.lt_add_one_of_le (Int.le_of_lt (h.below u hold))
      · rw [List.mem_singleton.mp hlast]
        exact Int.lt_succ _

/-- Saving a template as it is on record changes no template. -/
theorem Catalogued.saveTemplate_again (h : s.Catalogued) {t : Template} {id : Int}
    (hsound : t.check = .ok ()) (hthere : { t with id } ∈ s.templates) :
    Store.saveTemplate t s = .ok (id, { s with nextTemplateId := s.nextTemplateId + 1 }) := by
  obtain ⟨id', s', hok⟩ := exists_saveTemplate hsound s
  rcases saveTemplate_cases hok with ⟨known, hknown, hname, rfl, rfl⟩ | ⟨hnew, -, -⟩
  · obtain rfl : { t with id } = known := h.eq_of_name hthere hknown hname.symm
    rw [hok, map_replace_self fun o ho hname =>
      h.eq_of_name ho hthere (beq_iff_eq.mp hname)]
  · exact absurd rfl (hnew { t with id } hthere)

/-! Saving a binding. -/

structure SavesBinding (b : Binding) (s s' : Store) : Prop where
  rest : s' = { s with bindings := s'.bindings }
  bindings : Replaces (·.scope) [b] s.bindings s'.bindings

theorem sameScope_iff {b c : Binding} : sameScope b c = true ↔ c.scope = b.scope := by
  simp only [sameScope, Binding.scope, Bool.and_eq_true, beq_iff_eq, Prod.mk.injEq, and_assoc]
  exact ⟨fun ⟨hc, hd, hi⟩ => ⟨hc.symm, hd.symm, hi.symm⟩,
    fun ⟨hc, hd, hi⟩ => ⟨hc.symm, hd.symm, hi.symm⟩⟩

theorem Catalogued.saveBinding (h : s.Catalogued) (b : Binding) :
    ∃ s', Store.saveBinding b s = .ok ((), s') ∧ s'.Catalogued ∧ SavesBinding b s s' := by
  unfold Store.saveBinding
  split
  · rename_i hthere
    obtain ⟨c, hc, hsame⟩ := List.any_eq_true.mp hthere
    have hsame := sameScope_iff.mp hsame
    have hkeeps : ∀ o ∈ s.bindings, (if sameScope b o then b else o).scope = o.scope := by
      intro o _
      split
      · rename_i hscope
        exact (sameScope_iff.mp hscope).symm
      · rfl
    refine ⟨_, rfl, ⟨h.names, h.ids, h.below, ?_⟩, rfl,
      replaces_map (fun _ => sameScope_iff) ⟨c, hc, hsame⟩⟩
    rw [map_key_map hkeeps]
    exact h.scopes
  · rename_i hnone
    have hnew : ∀ c ∈ s.bindings, c.scope ≠ b.scope := fun c hc hscope =>
      hnone (List.any_eq_true.mpr ⟨c, hc, sameScope_iff.mpr hscope⟩)
    exact ⟨_, rfl, ⟨h.names, h.ids, h.below, nodup_map_concat h.scopes hnew⟩, rfl,
      replaces_concat hnew⟩

/-- Saving a binding as it is on record changes nothing. -/
theorem Catalogued.saveBinding_again (h : s.Catalogued) {b : Binding} (hthere : b ∈ s.bindings) :
    Store.saveBinding b s = .ok ((), s) := by
  rw [Store.saveBinding, if_pos (List.any_eq_true.mpr ⟨b, hthere, sameScope_iff.mpr rfl⟩),
    map_replace_self fun c hc hscope => h.eq_of_scope hc hthere (sameScope_iff.mp hscope)]

/-! Stores that operations lead to. -/

theorem empty_catalogued : empty.Catalogued where
  names := List.nodup_nil
  ids := List.nodup_nil
  below := nofun
  scopes := List.nodup_nil

theorem SameShelves.catalogued (h : s.SameShelves s') (hs : s.Catalogued) : s'.Catalogued := by
  obtain ⟨-, htemplates, hnext, hbindings⟩ := h
  constructor
  · rw [htemplates]
    exact hs.names
  · rw [htemplates]
    exact hs.ids
  · rw [htemplates, hnext]
    exact hs.below
  · rw [hbindings]
    exact hs.scopes

theorem putResult_catalogued (h : s.Catalogued) {result : ExtractionResult} {put : Bool}
    (hok : putResult result s = .ok (put, s')) : s'.Catalogued := by
  unfold putResult at hok
  split at hok
  · cases hok
    exact h
  · split at hok
    · cases hok
      exact ⟨h.names, h.ids, h.below, h.scopes⟩
    · cases hok

theorem Reached.catalogued (h : s.Reached) : s.Catalogued := by
  induction h with
  | empty => exact empty_catalogued
  | @call s c _ ih =>
    unfold Call.after
    split
    · rename_i s' hok
      rcases Call.shelves hok with
        hsame | ⟨result, rfl⟩ | ⟨template, rfl⟩ | ⟨binding, rfl⟩
      · exact hsame.catalogued ih
      · obtain ⟨_, hok⟩ := map_snd_eq_ok.mp hok
        exact putResult_catalogued ih hok
      · obtain ⟨_, hok⟩ := map_snd_eq_ok.mp hok
        exact (ih.saveTemplate hok).1
      · obtain ⟨_, hok⟩ := map_snd_eq_ok.mp hok
        obtain ⟨s'', hsaved, hcatalogued, -⟩ := ih.saveBinding binding
        rw [hsaved] at hok
        cases hok
        exact hcatalogued
    · exact ih

/-! Looking for a template. -/

theorem admits_iff {t : Template} {company documentType : String} :
    admits t company documentType = true ↔
      (∀ name, t.company = some name → name = company) ∧
        ∀ name, t.documentType = some name → name = documentType := by
  unfold admits
  cases t.company <;> cases t.documentType <;> simp

/-- Looking through the candidates finds what looking through all templates does. -/
theorem Catalogued.bestTemplate?_eq (h : s.Catalogued) (company documentType : String)
    (itemType : ItemType) : s.bestTemplate? company documentType itemType =
      selectTemplate s.templates company documentType itemType := by
  refine selectTemplate_congr h.ids fun t happlies => ?_
  rw [candidates, List.mem_mergeSort, List.mem_filter]
  exact and_iff_left (by
    simp [admits_iff.mpr ⟨happlies.company, happlies.documentType⟩, happlies.itemType])

end Store

end Collate
