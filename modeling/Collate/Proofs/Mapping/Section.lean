import Collate.Mapping.Section
import Mathlib.Data.List.Nodup

/-!
Sound sections. The check goes through templates and bindings one by one, and what it
finds of all of them is that each template is sound, that no name and no triple occurs
twice, and that every binding names a template of the section.
-/

namespace Collate.MappingSection

/-- What the check makes sure of. -/
structure Sound (m : MappingSection) : Prop where
  checked : ∀ t ∈ m.templates, t.check = .ok ()
  names : (m.templates.map (·.name)).Nodup
  named : ∀ b ∈ m.bindings, ∃ t ∈ m.templates, t.name = b.template
  scopes : (m.bindings.map (·.scope)).Nodup

/-- Keys that are free and not repeated, the first one apart. -/
theorem free_cons_iff {α : Type} {k : α} {keys taken : List α} :
    (k :: keys).Nodup ∧ (∀ x ∈ k :: keys, x ∉ taken) ↔
      k ∉ taken ∧ keys.Nodup ∧ ∀ x ∈ keys, x ∉ k :: taken := by
  simp only [List.nodup_cons, List.mem_cons, forall_eq_or_imp, not_or]
  constructor
  · rintro ⟨⟨hnew, hnodup⟩, hfree, hrest⟩
    exact ⟨hfree, hnodup, fun x hx => ⟨fun hsame => hnew (hsame ▸ hx), hrest x hx⟩⟩
  · rintro ⟨hfree, hnodup, hrest⟩
    exact ⟨⟨fun hk => (hrest k hk).1 rfl, hnodup⟩, hfree, fun x hx => (hrest x hx).2⟩

theorem checkTemplates_eq_ok_iff {taken : List String} {templates : List Template} :
    checkTemplates taken templates = .ok () ↔ (∀ t ∈ templates, t.check = .ok ()) ∧
      (templates.map (·.name)).Nodup ∧ ∀ name ∈ templates.map (·.name), name ∉ taken := by
  induction templates generalizing taken with
  | nil => simp [checkTemplates]
  | cons t rest ih =>
    rw [checkTemplates, List.map_cons, free_cons_iff, List.forall_mem_cons]
    cases hcheck : t.check with
    | error fault => exact iff_of_false nofun fun h => nomatch h.1.1
    | ok _ =>
      change (if taken.contains t.name then Except.error (.repeatedTemplate t.name)
        else checkTemplates (t.name :: taken) rest) = .ok () ↔ _
      by_cases htaken : t.name ∈ taken
      · rw [if_pos (by simpa using htaken)]
        exact iff_of_false nofun fun h => h.2.1 htaken
      · rw [if_neg (by simpa using htaken), ih, and_iff_right rfl, and_iff_right htaken]

theorem checkBindings_eq_ok_iff {names : List String}
    {taken : List (String × String × ItemType)} {bindings : List NamedBinding} :
    checkBindings names taken bindings = .ok () ↔ (∀ b ∈ bindings, b.template ∈ names) ∧
      (bindings.map (·.scope)).Nodup ∧ ∀ scope ∈ bindings.map (·.scope), scope ∉ taken := by
  induction bindings generalizing taken with
  | nil => simp [checkBindings]
  | cons b rest ih =>
    rw [checkBindings, List.map_cons, free_cons_iff, List.forall_mem_cons]
    by_cases hnamed : b.template ∈ names
    · rw [if_neg (by simpa using hnamed)]
      by_cases htaken : b.scope ∈ taken
      · rw [if_pos (by simpa using htaken)]
        exact iff_of_false nofun fun h => h.2.1 htaken
      · rw [if_neg (by simpa using htaken), ih, and_iff_right hnamed, and_iff_right htaken]
    · rw [if_pos (by simpa using hnamed)]
      exact iff_of_false nofun fun h => hnamed h.1.1

/-- A section passes exactly if it is sound. -/
theorem check_eq_ok_iff {m : MappingSection} : m.check = .ok () ↔ m.Sound := by
  have hboth : m.check = .ok () ↔ checkTemplates [] m.templates = .ok () ∧
      checkBindings (m.templates.map (·.name)) [] m.bindings = .ok () := by
    rw [check]
    cases checkTemplates [] m.templates with
    | ok _ => exact (and_iff_right rfl).symm
    | error fault => exact iff_of_false nofun fun h => nomatch h.1
  rw [hboth, checkTemplates_eq_ok_iff, checkBindings_eq_ok_iff]
  constructor
  · rintro ⟨⟨hchecked, hnames, -⟩, hnamed, hscopes, -⟩
    exact ⟨hchecked, hnames, fun b hb => List.mem_map.mp (hnamed b hb), hscopes⟩
  · rintro ⟨hchecked, hnames, hnamed, hscopes⟩
    exact ⟨⟨hchecked, hnames, nofun⟩, fun b hb => List.mem_map.mpr (hnamed b hb), hscopes, nofun⟩

end Collate.MappingSection
