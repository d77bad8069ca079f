import Collate.Mapping.Scope
import Mathlib.Data.List.Nodup
import Mathlib.Data.Prod.Lex

/-!
Which template is chosen. Templates are ranked by how closely they are bound, then by
priority, then by id, and the one of the least rank among those that apply to a lookup is
chosen. When no two templates have the same id there is one such template at most, so
the order in which templates are listed does not matter.
-/

namespace Collate

namespace Template

variable {t : Template} {company documentType : String} {itemType : ItemType}

/-- Whether a template is for a lookup: of its item type, and bound to no other company
and no other document type. -/
structure AppliesTo (t : Template) (company documentType : String) (itemType : ItemType) :
    Prop where
  itemType : t.itemType = itemType
  company : ∀ name, t.company = some name → name = company
  documentType : ∀ name, t.documentType = some name → name = documentType

/-- How closely a template is bound: to a company and a document type, to a company, to
a document type, to nothing. -/
def distance (t : Template) : Nat :=
  match t.company, t.documentType with
  | some _, some _ => 0
  | some _, none => 1
  | none, some _ => 2
  | none, none => 3

/-- What templates are chosen by: their scope, then their priority, then their id. -/
def rank (t : Template) : Nat ×ₗ Int ×ₗ Int := toLex (t.distance, toLex (t.priority, t.id))

/-- Templates of the same rank have the same id. -/
theorem id_of_rank {u : Template} (h : t.rank = u.rank) : t.id = u.id :=
  congrArg (fun r => (ofLex (ofLex r).2).2) h

/-- Whether a template applies to a lookup and none of the others that do has a smaller
rank. -/
structure Leads (t : Template) (templates : List Template) (company documentType : String)
    (itemType : ItemType) : Prop where
  mem : t ∈ templates
  applies : t.AppliesTo company documentType itemType
  least : ∀ u ∈ templates, u.AppliesTo company documentType itemType → t.rank ≤ u.rank

theorem eq_of_id {templates : List Template} (hids : (templates.map (·.id)).Nodup) {u : Template}
    (ht : t ∈ templates) (hu : u ∈ templates) (h : t.id = u.id) : t = u :=
  List.inj_on_of_nodup_map hids ht hu h

theorem Leads.unique {templates : List Template} (hids : (templates.map (·.id)).Nodup)
    {u : Template} (h : t.Leads templates company documentType itemType)
    (h' : u.Leads templates company documentType itemType) : t = u :=
  eq_of_id hids h.mem h'.mem
    (id_of_rank (le_antisymm (h.least u h'.mem h'.applies) (h'.least t h.mem h.applies)))

end Template

namespace ScopeTier

/-- A template has a tier if its scope admits the lookup, and the tier says how closely it
is bound. -/
theorem of?_eq_some_iff {t : Template} {company documentType : String} {tier : ScopeTier} :
    of? t company documentType = some tier ↔
      (∀ name, t.company = some name → name = company) ∧
      (∀ name, t.documentType = some name → name = documentType) ∧ tier.rank = t.distance := by
  unfold of? Template.distance
  cases t.company with
  | none =>
    cases t.documentType with
    | none => cases tier <;> simp [fits?, rank]
    | some d =>
      by_cases hd : d = documentType
      · cases tier <;> simp [fits?, rank, hd]
      · simp [fits?, hd]
  | some c =>
    by_cases hc : c = company
    · cases t.documentType with
      | none => cases tier <;> simp [fits?, rank, hc]
      | some d =>
        by_cases hd : d = documentType
        · cases tier <;> simp [fits?, rank, hc, hd]
        · simp [fits?, hc, hd]
    · simp [fits?, hc]

end ScopeTier

variable {templates : List Template} {t : Template} {company documentType : String}
  {itemType : ItemType}

/-- The templates that are admitted are those that apply. -/
theorem mem_admitted {entry : ScopeTier × Template} :
    entry ∈ admitted templates company documentType itemType ↔
      entry.2 ∈ templates ∧ entry.2.AppliesTo company documentType itemType ∧
        entry.1.rank = entry.2.distance := by
  obtain ⟨tier, t⟩ := entry
  simp only [admitted, List.mem_filterMap, List.mem_filter, beq_iff_eq, Option.map_eq_some_iff,
    Prod.mk.injEq]
  constructor
  · rintro ⟨u, ⟨hu, htype⟩, _, htier, rfl, rfl⟩
    obtain ⟨hcompany, hdocument, hrank⟩ := ScopeTier.of?_eq_some_iff.mp htier
    exact ⟨hu, ⟨htype, hcompany, hdocument⟩, hrank⟩
  · rintro ⟨ht, ⟨htype, hcompany, hdocument⟩, hrank⟩
    exact ⟨t, ⟨ht, htype⟩, tier, ScopeTier.of?_eq_some_iff.mpr ⟨hcompany, hdocument, hrank⟩,
      rfl, rfl⟩

/-- A template that applies is admitted in the tier of its scope. -/
theorem exists_admitted (ht : t ∈ templates) (h : t.AppliesTo company documentType itemType) :
    ∃ tier, (tier, t) ∈ admitted templates company documentType itemType := by
  have htier : ∃ tier : ScopeTier, tier.rank = t.distance := by
    unfold Template.distance
    split
    · exact ⟨.companyAndDocumentType, rfl⟩
    · exact ⟨.companyOnly, rfl⟩
    · exact ⟨.documentTypeOnly, rfl⟩
    · exact ⟨.global, rfl⟩
  obtain ⟨tier, hrank⟩ := htier
  exact ⟨tier, mem_admitted.mpr ⟨ht, h, hrank⟩⟩

/-- Among admitted templates the one of the smaller rank precedes. -/
theorem precedes_iff {a b : ScopeTier × Template} (ha : a.1.rank = a.2.distance)
    (hb : b.1.rank = b.2.distance) : precedes a b = true ↔ a.2.rank < b.2.rank := by
  rw [Template.rank, Template.rank, Prod.Lex.toLex_lt_toLex, Prod.Lex.toLex_lt_toLex, precedes,
    ha, hb]
  by_cases hdistance : a.2.distance = b.2.distance
  · by_cases hpriority : a.2.priority = b.2.priority
    · simp [hdistance, hpriority]
    · simp [hdistance, hpriority]
  · simp [hdistance]

/-- Going through a list with the best entry so far in hand ends with the best of all. -/
theorem foldl_least (first : ScopeTier × Template) (rest : List (ScopeTier × Template))
    (h : ∀ e ∈ first :: rest, e.1.rank = e.2.distance) :
    rest.foldl (fun best c => if precedes c best then c else best) first ∈ first :: rest ∧
      ∀ e ∈ first :: rest,
        (rest.foldl (fun best c => if precedes c best then c else best) first).2.rank ≤
          e.2.rank := by
  induction rest generalizing first with
  | nil => simp
  | cons c rest ih =>
    rw [List.foldl_cons]
    have hfirst := h first (by simp)
    have hc := h c (by simp)
    split
    · rename_i hprecedes
      have hlt := (precedes_iff hc hfirst).mp hprecedes
      obtain ⟨hmem, hleast⟩ := ih c fun e he => h e (List.mem_cons_of_mem _ he)
      refine ⟨List.mem_cons_of_mem _ hmem, fun e he => ?_⟩
      rcases List.mem_cons.mp he with rfl | hlater
      · exact (hleast c (by simp)).trans hlt.le
      · exact hleast e hlater
    · rename_i hnot
      have hle := not_lt.mp fun hlt => hnot ((precedes_iff hc hfirst).mpr hlt)
      have hrest : ∀ e ∈ first :: rest, e.1.rank = e.2.distance := fun e he =>
        h e (by simp only [List.mem_cons] at he ⊢; exact he.imp_right .inr)
      obtain ⟨hmem, hleast⟩ := ih first hrest
      refine ⟨?_, fun e he => ?_⟩
      · simp only [List.mem_cons] at hmem ⊢
        exact hmem.imp_right .inr
      · simp only [List.mem_cons] at he
        rcases he with rfl | rfl | hlater
        · exact hleast e (by simp)
        · exact (hleast first (by simp)).trans hle
        · exact hleast e (List.mem_cons_of_mem _ hlater)

theorem selectTemplate_leads (h : selectTemplate templates company documentType itemType = some t) :
    t.Leads templates company documentType itemType := by
  rw [selectTemplate, Option.map_eq_some_iff] at h
  obtain ⟨entry, hleading, rfl⟩ := h
  cases hentries : admitted templates company documentType itemType with
  | nil =>
    rw [hentries] at hleading
    cases hleading
  | cons first rest =>
    rw [hentries, leading?, Option.some.injEq] at hleading
    have hranks : ∀ e ∈ first :: rest, e.1.rank = e.2.distance := fun e he =>
      (mem_admitted.mp (hentries ▸ he)).2.2
    obtain ⟨hmem, hleast⟩ := foldl_least first rest hranks
    rw [hleading, ← hentries] at hmem
    obtain ⟨hthere, happlies, -⟩ := mem_admitted.mp hmem
    refine ⟨hthere, happlies, fun u hu hadmits => ?_⟩
    obtain ⟨tier, hadmitted⟩ := exists_admitted hu hadmits
    rw [hleading] at hleast
    exact hleast (tier, u) (hentries ▸ hadmitted)

/-- No template is chosen exactly if none applies. -/
theorem selectTemplate_eq_none_iff :
    selectTemplate templates company documentType itemType = none ↔
      ∀ t ∈ templates, ¬ t.AppliesTo company documentType itemType := by
  rw [selectTemplate, Option.map_eq_none_iff]
  cases hentries : admitted templates company documentType itemType with
  | nil =>
    refine iff_of_true rfl fun t ht happlies => ?_
    obtain ⟨tier, hadmitted⟩ := exists_admitted ht happlies
    rw [hentries] at hadmitted
    cases hadmitted
  | cons first rest =>
    refine iff_of_false nofun fun hnone => ?_
    obtain ⟨hthere, happlies, -⟩ := mem_admitted.mp (hentries ▸ List.mem_cons_self : first ∈ _)
    exact hnone _ hthere happlies

/-- The template that is chosen is the one that leads. -/
theorem selectTemplate_eq_some_iff (hids : (templates.map (·.id)).Nodup) :
    selectTemplate templates company documentType itemType = some t ↔
      t.Leads templates company documentType itemType := by
  refine ⟨selectTemplate_leads, fun h => ?_⟩
  cases hchosen : selectTemplate templates company documentType itemType with
  | none => exact absurd h.applies (selectTemplate_eq_none_iff.mp hchosen t h.mem)
  | some u => rw [(selectTemplate_leads hchosen).unique hids h]

/-- Lists with the same applying templates give the same choice. -/
theorem selectTemplate_congr {others : List Template} (hids : (templates.map (·.id)).Nodup)
    (hsame : ∀ t, t.AppliesTo company documentType itemType → (t ∈ others ↔ t ∈ templates)) :
    selectTemplate others company documentType itemType =
      selectTemplate templates company documentType itemType := by
  cases hchosen : selectTemplate others company documentType itemType with
  | none =>
    have hnone := selectTemplate_eq_none_iff.mp hchosen
    exact (selectTemplate_eq_none_iff.mpr fun t ht happlies =>
      hnone t ((hsame t happlies).mpr ht) happlies).symm
  | some t =>
    obtain ⟨hmem, happlies, hleast⟩ := selectTemplate_leads hchosen
    exact ((selectTemplate_eq_some_iff hids).mpr ⟨(hsame t happlies).mp hmem, happlies,
      fun u hu hadmits => hleast u ((hsame u hadmits).mpr hu) hadmits⟩).symm

/-- The choice does not depend on the order in which templates are listed. -/
theorem selectTemplate_perm {others : List Template} (hids : (templates.map (·.id)).Nodup)
    (hperm : others.Perm templates) : selectTemplate others company documentType itemType =
      selectTemplate templates company documentType itemType :=
  selectTemplate_congr hids fun _ _ => hperm.mem_iff

end Collate
