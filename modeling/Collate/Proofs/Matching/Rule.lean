import Collate.Matching.Rule
import Collate.Proofs.Text.Blank

/-!
What a rule sets aside. Blank values are the same under every rule, and all other
values have a reduced form. A rule that sets more aside makes values equal that were
not, and never the other way round.
-/

namespace Collate.MatchRule

/-- What is left of a value when everything that does not matter is set aside. -/
def reduced (rule : MatchRule) (value : String) : String :=
  let kept := if rule.trims then Text.trim value else value
  if rule.foldsCase then Text.lower kept else kept

/-- A rule is at least as tolerant as another: the other compares character by
character, or they treat blanks alike and case is set aside. -/
def LoosensTo (strict loose : MatchRule) : Prop :=
  strict = exact ∨ (strict.trims = loose.trims ∧ loose.foldsCase = true)

/-- Whether a value is blank does not depend on the rule. -/
theorem form?_eq (rule : MatchRule) (value : String) :
    rule.form? value = if Text.isBlankText value then none else some (rule.reduced value) := by
  have hblank : Text.isBlankText (if rule.trims then Text.trim value else value) =
      Text.isBlankText value := by
    split
    · exact Text.isBlankText_trim value
    · rfl
  simp only [form?, reduced, hblank]

/-- Values agree if neither is blank and their reduced forms are equal. -/
theorem agrees_iff {rule : MatchRule} {a b : String} :
    rule.agrees a b = true ↔ Text.isBlankText a = false ∧ Text.isBlankText b = false ∧
      rule.reduced a = rule.reduced b := by
  rw [agrees, form?_eq, form?_eq]
  cases Text.isBlankText a with
  | true => simp
  | false =>
    cases Text.isBlankText b with
    | true => simp
    | false => simp

variable {strict loose : MatchRule}

theorem LoosensTo.reduced_eq (h : strict.LoosensTo loose) {a b : String}
    (heq : strict.reduced a = strict.reduced b) : loose.reduced a = loose.reduced b := by
  obtain rfl | ⟨htrims, hfolds⟩ := h
  · -- nothing was set aside
    have hsame : a = b := heq
    rw [hsame]
  · cases hcase : strict.foldsCase with
    | true =>
      have hsame : strict = loose := by
        cases strict
        cases loose
        simp_all
      exact hsame ▸ heq
    | false =>
      simp only [reduced, hcase, Bool.false_eq_true, if_false] at heq
      simp only [reduced, hfolds, if_true, ← htrims, heq]

/-- What agrees under a rule agrees under a more tolerant one. -/
theorem LoosensTo.agrees (h : strict.LoosensTo loose) {a b : String}
    (hagrees : strict.agrees a b = true) : loose.agrees a b = true := by
  obtain ⟨ha, hb, heq⟩ := agrees_iff.mp hagrees
  exact agrees_iff.mpr ⟨ha, hb, h.reduced_eq heq⟩

end Collate.MatchRule
