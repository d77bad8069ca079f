import Collate.Proofs.Json.Drafted
import Collate.Proofs.Settings.Kept

/-!
Layers are changes that can be put on top of each other: two layers one after the other
are one, which takes each setting from the second where it says something about it, and
from the first otherwise, aliases one by one. The text of a layer says no less than the
layer: what is not mentioned is not in it, what is cleared is a null.
-/

namespace Collate

open Json (decode decodeText readText readList readDict readOptional readOptional_eq_ok_some
  slotOf presentFields leftOut_written)

namespace ConfigLayer

/-- Every layer is read from its document. -/
theorem decode_toJson (l : ConfigLayer) : decode ofJson l.toJson = .ok l := by
  have haliases : (slotOf "columnAliases" (l.aliases.map Json.ofTextDict)).withDefault none
      (readOptional (readDict readText)) = .ok l.aliases :=
    leftOut_written (readOptional_eq_ok_some nofun)
      (fun _ _ => Json.readDict_written fun _ _ => rfl) _
  have hexternal : (slotOf "externalJoinKeys" (l.externalKeys.map Json.ofTexts)).withDefault none
      (readOptional (readList readText)) = .ok l.externalKeys :=
    leftOut_written (readOptional_eq_ok_some nofun)
      (fun _ _ => Json.readList_written fun _ _ => rfl) _
  have hinternal := ofSlot_written "internalJoinKey" l.internalKey
  have hmaster := ofSlot_written "masterCsvPath" l.masterCsv
  have hwritten := l.fields_nodup.sublist (Json.presentFields_keys l.fields)
  simp only [decode, ofJson, toJson_eq, Json.slots_of_nodup hwritten,
    Json.lookup_presentFields l.fields_nodup, Except.bind_eq_ok]
  exact ⟨_, rfl, _, haliases, _, hexternal, _, hinternal, _, hmaster, rfl⟩

theorem toJson_plain (l : ConfigLayer) : l.toJson.Plain Json.depthLimit := by
  have htext : ∀ (room : Nat) (s : String), (Json.string s).Plain room :=
    fun _ _ => .of_scalar rfl nofun
  have hchange : ∀ (change : Change String) (v : Json), change.written .string = some v →
      v.Plain 126 := by
    rintro (_ | _ | s) v ⟨⟩
    · exact .of_scalar rfl nofun
    · exact htext _ s
  have hwritten : ∀ field ∈ l.fields, ∀ v, field.2 = some v → v.Plain 126 := by
    simp only [fields, List.forall_mem_cons]
    refine ⟨hchange _, fun v hv => ?_, hchange _, fun v hv => ?_, List.forall_mem_nil _⟩
    · obtain ⟨texts, -, rfl⟩ := Option.map_eq_some_iff.mp hv
      exact .array (List.forall_mem_map.mpr fun s _ => htext 125 s)
    · obtain ⟨texts, -, rfl⟩ := Option.map_eq_some_iff.mp hv
      exact .object (List.forall_mem_map.mpr fun e _ => htext 125 e.2)
  rw [toJson_eq]
  exact .object fun field hfield => hwritten _ (Json.mem_presentFields.mp hfield) _ rfl

/-- Every layer is read from its text. -/
theorem decodeText_toJson (l : ConfigLayer) : decodeText ofJson l.toJson.text = .ok l := by
  rw [Json.decodeText_text ofJson l.toJson_plain.sized l.toJson_plain.floatFree, decode_toJson]
  rfl

/-- The document of a layer tells what is left alone from what is cleared and what is set. -/
theorem toJson_lookup (l : ConfigLayer) : ∃ fields, l.toJson = .object fields ∧
    fields.lookup "masterCsvPath" = l.masterCsv.written .string ∧
    fields.lookup "internalJoinKey" = l.internalKey.written .string := by
  refine ⟨_, l.toJson_eq, ?_, ?_⟩
  · rw [Json.lookup_presentFields l.fields_nodup]
    rfl
  · rw [Json.lookup_presentFields l.fields_nodup]
    rfl

end ConfigLayer

/-! Layers on top of each other. -/

namespace Change

variable {α : Type} (first second third : Change α)

theorem apply_andThen (old : Option α) :
    (first.andThen second).apply old = second.apply (first.apply old) := by
  cases second <;> rfl

theorem andThen_assoc :
    (first.andThen second).andThen third = first.andThen (second.andThen third) := by
  cases third <;> rfl

theorem andThen_self : first.andThen first = first := by
  cases first <;> rfl

theorem keep_andThen : keep.andThen first = first := by
  cases first <;> rfl

end Change

attribute [ext] JoinConfig ConfigLayer

namespace ConfigLayer

variable (first second third : ConfigLayer)

/-- The alias that a layer has for a column. -/
def alias? (l : ConfigLayer) (column : String) : Option String :=
  l.aliases.bind (·.get? column)

/-- A layer's aliases are what they are for each column, if it has any at all. -/
theorem aliases_eq {first second : ConfigLayer}
    (hsome : first.aliases.isSome = second.aliases.isSome)
    (h : ∀ column, first.alias? column = second.alias? column) :
    first.aliases = second.aliases := by
  simp only [alias?] at h
  match hfirst : first.aliases, hsecond : second.aliases with
  | none, none => rfl
  | none, some _ => simp [hfirst, hsecond] at hsome
  | some _, none => simp [hfirst, hsecond] at hsome
  | some a, some b =>
    rw [hfirst, hsecond] at h
    exact congrArg some (Dict.ext_get? h)

theorem aliases_isSome_andThen : (first.andThen second).aliases.isSome =
    (first.aliases.isSome || second.aliases.isSome) := by
  obtain ⟨_, _, _, _ | a⟩ := first <;> obtain ⟨_, _, _, _ | b⟩ := second <;> rfl

/-- Of two layers the second has the last word on an alias. -/
theorem alias?_andThen (column : String) :
    (first.andThen second).alias? column = (second.alias? column).or (first.alias? column) := by
  obtain ⟨_, _, _, _ | a⟩ := first <;> obtain ⟨_, _, _, _ | b⟩ := second
  · rfl
  · exact Option.or_none.symm
  · rfl
  · exact Dict.get?_insertAll a b.keys_nodup column

/-- A layer for two: every setting is the second's where it says something, and the first's
otherwise, every alias likewise. -/
structure Stacks (first second both : ConfigLayer) : Prop where
  master : both.masterCsv =
    if second.masterCsv = .keep then first.masterCsv else second.masterCsv
  external : both.externalKeys = second.externalKeys.or first.externalKeys
  internal : both.internalKey =
    if second.internalKey = .keep then first.internalKey else second.internalKey
  mentions : both.aliases.isSome = (first.aliases.isSome || second.aliases.isSome)
  aliases : ∀ column, both.alias? column = (second.alias? column).or (first.alias? column)

theorem stacks_andThen : Stacks first second (first.andThen second) where
  master := by
    cases h : second.masterCsv <;> simp [andThen, Change.andThen, h]
  external := rfl
  internal := by
    cases h : second.internalKey <;> simp [andThen, Change.andThen, h]
  mentions := aliases_isSome_andThen first second
  aliases := alias?_andThen first second

/-- There is one layer for two. -/
theorem stacks_iff {both : ConfigLayer} :
    Stacks first second both ↔ both = first.andThen second := by
  have hboth := stacks_andThen first second
  constructor
  · intro h
    ext : 1
    · exact h.master.trans hboth.master.symm
    · exact h.external
    · exact h.internal.trans hboth.internal.symm
    · exact aliases_eq (h.mentions.trans hboth.mentions.symm) fun column =>
        (h.aliases column).trans (hboth.aliases column).symm
  · rintro rfl
    exact hboth

theorem andThen_assoc :
    (first.andThen second).andThen third = first.andThen (second.andThen third) := by
  ext : 1
  · exact Change.andThen_assoc ..
  · exact Option.or_assoc.symm
  · exact Change.andThen_assoc ..
  · refine aliases_eq ?_ fun column => ?_
    · simp only [aliases_isSome_andThen, Bool.or_assoc]
    · simp only [alias?_andThen, Option.or_assoc]

theorem andThen_self : first.andThen first = first := by
  ext : 1
  · exact Change.andThen_self _
  · exact Option.or_self
  · exact Change.andThen_self _
  · refine aliases_eq ?_ fun column => ?_
    · simp only [aliases_isSome_andThen, Bool.or_self]
    · simp only [alias?_andThen, Option.or_self]

theorem andThen_empty : first.andThen empty = first := by
  obtain ⟨_, _, _, _ | a⟩ := first <;> rfl

theorem empty_andThen : empty.andThen first = first := by
  obtain ⟨_, _, _, _ | a⟩ := first
  · simp [andThen, empty, Change.keep_andThen]
  · simp [andThen, empty, Change.keep_andThen]

end ConfigLayer

namespace JoinConfig

/-- A layer's aliases stand over those that were there. -/
theorem get?_layered (c : JoinConfig) (l : ConfigLayer) (column : String) :
    (c.layered l).aliases.get? column = (l.alias? column).or (c.aliases.get? column) := by
  obtain ⟨_, _, _, _ | b⟩ := l
  · rfl
  · exact Dict.get?_insertAll c.aliases b.keys_nodup column

/-- One layer after the other is the layer for both. -/
theorem layered_layered (c : JoinConfig) (first second : ConfigLayer) :
    (c.layered first).layered second = c.layered (first.andThen second) := by
  ext : 1
  · exact (Change.apply_andThen ..).symm
  · exact Option.getD_or.symm
  · exact (Change.apply_andThen ..).symm
  · refine Dict.ext_get? fun column => ?_
    rw [get?_layered, get?_layered, get?_layered, ConfigLayer.alias?_andThen, Option.or_assoc]

end JoinConfig

/-- Every layer is read back from its text, in which null and absence are kept apart; layers
compose, with the layer that changes nothing as unit, and act on settings: two in a row are
their composition, the same one again adds nothing, and the unit changes nothing. -/
theorem layers_compose :
    (∀ l : ConfigLayer, decodeText ConfigLayer.ofJson l.toJson.text = .ok l ∧
      ∃ fields, l.toJson = .object fields ∧
        fields.lookup "masterCsvPath" = l.masterCsv.written .string ∧
        fields.lookup "internalJoinKey" = l.internalKey.written .string) ∧
    (∀ first second third : ConfigLayer,
      (∀ both, first.Stacks second both ↔ both = first.andThen second) ∧
      (first.andThen second).andThen third = first.andThen (second.andThen third) ∧
      ConfigLayer.empty.andThen first = first ∧ first.andThen .empty = first) ∧
    ∀ (c : JoinConfig) (first second : ConfigLayer),
      (c.layered first).layered second = c.layered (first.andThen second) ∧
      (c.layered first).layered first = c.layered first ∧ c.layered .empty = c := by
  refine ⟨fun l => ⟨l.decodeText_toJson, l.toJson_lookup⟩, fun first second third => ?_,
    fun c first second => ?_⟩
  · exact ⟨fun _ => first.stacks_iff second, first.andThen_assoc second third, first.empty_andThen,
      first.andThen_empty⟩
  · refine ⟨c.layered_layered first second, ?_, rfl⟩
    rw [c.layered_layered, first.andThen_self]

end Collate
