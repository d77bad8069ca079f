import Collate.Proofs.Matching.Rule
import Collate.Proofs.Merge.Join

/-!
Matching under a more tolerant rule. What agrees under a rule agrees under a more
tolerant one, so no key loses a match. The key that joins a row can only move towards the
front of the keys, and where it stays the row keeps all attachment rows that it had.
-/

namespace Collate

namespace Merged

/-- What joins a row: a key, its place among the keys, and the positions of the
attachment rows. -/
structure Link where
  place : Nat
  key : String
  positions : List Nat
  deriving DecidableEq, Repr

def found (rule : MatchRule) (attachments : Table) (row : Row) (key : String) : List Nat :=
  attachments.positionsMatching rule key (Table.rowCell row key)

/-- The link of a row, by the first key on which attachment rows agree with it. -/
def link? (rule : MatchRule) (keys : List String) (attachments : Table) (row : Row) :
    Option Link :=
  (keys.findIdx? fun key => !(found rule attachments row key).isEmpty).bind fun place =>
    keys[place]?.map fun key => ⟨place, key, found rule attachments row key⟩

/-- The rows that a primary row becomes by its link, one for each position, or one row
without a link. -/
def linkedRows (primary attachments : Table) (row : Row) : Option Link → List Row
  | some link => link.positions.filterMap fun n => attachments.rows[n]?.map fun other =>
      joinedRow primary attachments link.key (Table.rowCell row link.key) row (some other)
  | none => [joinedRow primary attachments unmatched "" row none]

/-! Links. -/

variable {rule strict loose : MatchRule} {keys : List String} {primary attachments : Table}
  {row : Row}

theorem link?_eq_none_iff : link? rule keys attachments row = none ↔
    ∀ key ∈ keys, found rule attachments row key = [] := by
  unfold link?
  cases hplace : keys.findIdx? fun key => !(found rule attachments row key).isEmpty with
  | none => simpa using List.findIdx?_eq_none_iff.mp hplace
  | some place =>
    obtain ⟨hlt, hsome, -⟩ := List.findIdx?_eq_some_iff_getElem.mp hplace
    rw [Option.bind_some, List.getElem?_eq_getElem hlt, Option.map_some]
    apply iff_of_false (Option.some_ne_none _)
    intro hnone
    simp [hnone _ (List.getElem_mem hlt)] at hsome

/-- The key of a link is at its place, its positions are those that agree on that key, of
which there is one, and no key before it has any. -/
theorem link?_eq_some_iff {link : Link} : link? rule keys attachments row = some link ↔
    keys[link.place]? = some link.key ∧ link.positions = found rule attachments row link.key ∧
    link.positions ≠ [] ∧
    ∀ n < link.place, ∀ key, keys[n]? = some key → found rule attachments row key = [] := by
  obtain ⟨place, key, positions⟩ := link
  simp only [link?, Option.bind_eq_some_iff, Option.map_eq_some_iff, Link.mk.injEq,
    List.findIdx?_eq_some_iff_getElem]
  constructor
  · rintro ⟨_, ⟨hlt, hsome, hbefore⟩, _, hkey, rfl, rfl, rfl⟩
    refine ⟨hkey, rfl, ?_, ?_⟩
    · rw [List.getElem?_eq_getElem hlt, Option.some.injEq] at hkey
      simpa [hkey] using hsome
    · intro n hn other hother
      have hnone := hbefore n hn
      rw [List.getElem?_eq_getElem (Nat.lt_trans hn hlt), Option.some.injEq] at hother
      simpa [hother] using hnone
  · rintro ⟨hkey, rfl, hne, hbefore⟩
    obtain ⟨hlt, hat⟩ := List.getElem?_eq_some_iff.mp hkey
    refine ⟨place, ⟨hlt, ?_, ?_⟩, key, hkey, rfl, rfl, rfl⟩
    · simpa [hat] using hne
    · intro n hn
      simp [hbefore n hn _ (List.getElem?_eq_getElem (Nat.lt_trans hn hlt))]

theorem find?_eq_link? : keys.find? (fun key => !(found rule attachments row key).isEmpty) =
    (link? rule keys attachments row).map (·.key) := by
  rw [List.find?_eq_bind_findIdx?_getElem?, link?, Option.map_bind]
  congr 1
  funext place
  rw [Function.comp_apply, Option.map_map]
  exact Option.map_id'.symm

/-- The rows of the reference are those that the link gives. -/
theorem nestedRows_eq_linkedRows (rule : MatchRule) (keys : List String)
    (primary attachments : Table) (row : Row) :
    nestedRows rule keys primary attachments row =
      linkedRows primary attachments row (link? rule keys attachments row) := by
  have hempty : ∀ key, (agreeing rule attachments row key).isEmpty =
      (found rule attachments row key).isEmpty := by
    intro key
    rw [Bool.eq_iff_iff, List.isEmpty_iff, List.isEmpty_iff]
    exact (Table.positionsMatching_eq_nil_iff _ _ _ _).symm
  unfold nestedRows
  simp only [hempty]
  rw [find?_eq_link?]
  cases hlink : link? rule keys attachments row with
  | none => rfl
  | some link =>
    obtain ⟨-, hpositions, -⟩ := link?_eq_some_iff.mp hlink
    simp only [Option.map_some, linkedRows, hpositions, found,
      Table.filterMap_positionsMatching]
    rfl

/-! A more tolerant rule. -/

theorem found_subset (h : strict.LoosensTo loose) (attachments : Table) (row : Row)
    (key : String) : found strict attachments row key ⊆ found loose attachments row key := by
  intro n hn
  obtain ⟨entry, hentry, rfl⟩ := List.mem_map.mp hn
  obtain ⟨hmem, hagrees⟩ := List.mem_filter.mp hentry
  exact List.mem_map.mpr ⟨entry, List.mem_filter.mpr ⟨hmem, h.agrees hagrees⟩, rfl⟩

/-- A link under a rule becomes a link under a more tolerant one, by the same key with
all its positions or by an earlier one. -/
theorem link?_loosened (h : strict.LoosensTo loose) {link : Link}
    (hlink : link? strict keys attachments row = some link) :
    ∃ link', link? loose keys attachments row = some link' ∧ link'.place ≤ link.place ∧
      (link'.place = link.place → link.positions ⊆ link'.positions) := by
  obtain ⟨hkey, hpositions, hne, -⟩ := link?_eq_some_iff.mp hlink
  have hkept := hpositions ▸ found_subset h attachments row link.key
  have hloose : found loose attachments row link.key ≠ [] := fun hnil =>
    hne (List.subset_nil.mp (hnil ▸ hkept))
  cases hlink' : link? loose keys attachments row with
  | none =>
    exact absurd (link?_eq_none_iff.mp hlink' _ (List.mem_of_getElem? hkey)) hloose
  | some link' =>
    obtain ⟨hkey', hpositions', -, hbefore'⟩ := link?_eq_some_iff.mp hlink'
    refine ⟨link', rfl, ?_, ?_⟩
    · apply Nat.le_of_not_lt
      intro hlt
      exact hloose (hbefore' link.place hlt link.key hkey)
    · intro hplace
      rw [hplace, hkey, Option.some.injEq] at hkey'
      rw [hpositions', ← hkey']
      exact hkept

end Merged

/-- Merging under a more tolerant rule never loses a match. Under both rules each primary
row becomes the rows that its link gives. A row with a link under the stricter rule has
one under the other, by a key at the same place or an earlier one, and if the place is the
same all attachment rows are kept. -/
theorem merge_loosened {plan : JoinPlan} {strict loose : MatchRule} (h : strict.LoosensTo loose)
    {primary : Table} {attachments : List Table} (hprimary : primary.WellFormed)
    (hattachments : ∀ t ∈ attachments, t.WellFormed) (htype : plan.itemType = .singleSource)
    (hkeys : usableKeys plan ≠ []) :
    let keys := usableKeys plan
    let stacked := Table.stack (attachments.map (·.rename plan.aliases))
    ∃ before after : Merged, merge plan strict primary attachments = .ok before ∧
      merge plan loose primary attachments = .ok after ∧
      before.table.rows = primary.rows.flatMap (fun row =>
        Merged.linkedRows primary stacked row (Merged.link? strict keys stacked row)) ∧
      after.table.rows = primary.rows.flatMap (fun row =>
        Merged.linkedRows primary stacked row (Merged.link? loose keys stacked row)) ∧
      ∀ row ∈ primary.rows, ∀ link, Merged.link? strict keys stacked row = some link →
        ∃ link', Merged.link? loose keys stacked row = some link' ∧
          link'.place ≤ link.place ∧
          (link'.place = link.place → link.positions ⊆ link'.positions) := by
  intro keys stacked
  have hstacked : ∀ rule, combined plan rule attachments = stacked := by
    intro rule
    simp only [combined, htype, stacked]
  have hmerge : ∀ rule, ∃ m, merge plan rule primary attachments = .ok m ∧
      m.table.rows = primary.rows.flatMap fun row =>
        Merged.linkedRows primary stacked row (Merged.link? rule keys stacked row) := by
    intro rule
    have hok := merge_singleSource rule primary attachments htype hkeys
    rw [Merged.ofJoin_eq_nestedLoop rule _ hprimary (combined_wellFormed plan rule hattachments),
      hstacked rule] at hok
    have himages := funext (Merged.nestedRows_eq_linkedRows rule keys primary stacked)
    exact ⟨_, hok, congrArg (fun images => primary.rows.flatMap images) himages⟩
  obtain ⟨before, hbefore, hrows⟩ := hmerge strict
  obtain ⟨after, hafter, hrows'⟩ := hmerge loose
  exact ⟨before, after, hbefore, hafter, hrows, hrows', fun _ _ _ => Merged.link?_loosened h⟩

/-- Character by character the first row is joined by the second key alone, and when blanks
and case are set aside by the first one; the second row is joined by the first key under
both rules and gains a match. -/
theorem merge_loosened_earlier :
    let primary := Table.ofRecords [[("phone", "A1"), ("acct", "x")], [("phone", "b"), ("acct", "x")]]
    let attachment := Table.ofRecords [[("phone", " a1 "), ("acct", "x")],
      [("phone", "b"), ("acct", "")], [("phone", "B"), ("acct", "")]]
    let plan := JoinPlan.ofKeys .singleSource ["phone", "acct"]
    let links := fun rule => primary.rows.map
      (Merged.link? rule (usableKeys plan) (Table.stack [attachment]))
    MatchRule.exact.LoosensTo .tolerant ∧ primary.WellFormed ∧
      (∀ t ∈ [attachment], t.WellFormed) ∧ usableKeys plan ≠ [] ∧
      links .exact = [some ⟨1, "acct", [0]⟩, some ⟨0, "phone", [1]⟩] ∧
      links .tolerant = [some ⟨0, "phone", [0]⟩, some ⟨0, "phone", [1, 2]⟩] ∧
      ∀ row ∈ primary.rows, ∀ link,
        Merged.link? .exact (usableKeys plan) (Table.stack [attachment]) row = some link →
        ∃ link', Merged.link? .tolerant (usableKeys plan) (Table.stack [attachment]) row =
            some link' ∧ link'.place ≤ link.place ∧
          (link'.place = link.place → link.positions ⊆ link'.positions) := by
  intro primary attachment plan links
  have hloosens : MatchRule.exact.LoosensTo .tolerant := Or.inl rfl
  have hprimary : primary.WellFormed := Table.ofRecords_wellFormed _
  have hattachments : ∀ t ∈ [attachment], t.WellFormed := by
    simpa using Table.ofRecords_wellFormed _
  have hkeys : usableKeys plan ≠ [] := by decide +kernel
  have hrenamed : [attachment].map (·.rename plan.aliases) = [attachment] := by decide +kernel
  obtain ⟨-, -, -, -, -, -, hlinks⟩ := merge_loosened hloosens hprimary
    hattachments rfl hkeys
  rw [hrenamed] at hlinks
  exact ⟨hloosens, hprimary, hattachments, hkeys, by decide +kernel, by decide +kernel, hlinks⟩

end Collate
