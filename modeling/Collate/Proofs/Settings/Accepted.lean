import Collate.Proofs.Settings.Readable
import Collate.Proofs.Settings.Reload

/-!
The schema of settings leaves little to the checks after it. Settings that are read from a
document that fits have the known version, at least one worker if they say how many, and a
separator. A document that fits is read unless one of its numbers of workers, ids and
priorities is not written as a whole number of its range.
-/

namespace Collate

open Json (Read readText readNat slotOf)

theorem FlattenOptions.reads : Reads
    (.record [] [("arrayDelimiter", .text 0), ("flattenSeparator", Settings.someText)])
    ofJson := by
  refine .record fun given _ hfits => ?_
  simp only [List.forall_mem_cons] at hfits
  obtain ⟨hdelimiter, hseparator, -⟩ := hfits
  exact (exists_bind_ok ((reads_text 0).withDefault hdelimiter) fun _ =>
    exists_bind_ok ((reads_text 1).withDefault hseparator) fun _ => exists_ok _).mpr (by simp)

theorem MatchRule.reads :
    Reads (.record [] [("caseInsensitive", .truth), ("trim", .truth)]) ofJson := by
  refine .record fun given _ hfits => ?_
  simp only [List.forall_mem_cons] at hfits
  obtain ⟨hfolds, htrims, -⟩ := hfits
  exact (exists_bind_ok (reads_truth.withDefault hfolds) fun _ =>
    exists_bind_ok (reads_truth.withDefault htrims) fun _ => exists_ok _).mpr (by simp)

theorem JoinConfig.reads : Reads Settings.configSchema ofJson := by
  refine .record fun given _ hfits => ?_
  simp only [List.forall_mem_cons] at hfits
  obtain ⟨haliases, hkeys, hinternal, hcsv, -⟩ := hfits
  exact (exists_bind_ok ((reads_text 0).dict.withDefault haliases) fun _ =>
    exists_bind_ok ((reads_text 1).list.withDefault hkeys) fun _ =>
    exists_bind_ok ((reads_text 0).optional.withDefault hinternal) fun _ =>
    exists_bind_ok ((reads_text 0).optional.withDefault hcsv) fun _ => exists_ok _).mpr (by simp)

theorem ConfigLayer.reads : Reads Settings.layerSchema ofJson := by
  refine .record fun given _ hfits => ?_
  simp only [List.forall_mem_cons] at hfits
  obtain ⟨haliases, hkeys, hinternal, hcsv, -⟩ := hfits
  exact (exists_bind_ok ((reads_text 0).dict.optional.withDefault haliases) fun _ =>
    exists_bind_ok ((reads_text 1).list.optional.withDefault hkeys) fun _ =>
    exists_bind_ok (reads_change hinternal) fun _ =>
    exists_bind_ok (reads_change hcsv) fun _ => exists_ok _).mpr (by simp)

theorem NamedBinding.reads : Reads Settings.bindingSchema ofJson := by
  refine .record fun given hthere hfits => ?_
  simp only [List.forall_mem_cons] at hfits hthere
  obtain ⟨hcompany, hlayer, hdocumentType, hitemType, htemplate, -⟩ := hfits
  obtain ⟨hcompany', hdocumentType', hitemType', htemplate', -⟩ := hthere
  exact (exists_bind_ok ((reads_text 1).required hcompany' hcompany) fun _ =>
    exists_bind_ok (ConfigLayer.reads.optional.withDefault hlayer) fun _ =>
    exists_bind_ok ((reads_text 1).required hdocumentType' hdocumentType) fun _ =>
    exists_bind_ok (reads_itemType.required hitemType' hitemType) fun _ =>
    exists_bind_ok ((reads_text 1).required htemplate' htemplate) fun _ =>
    exists_ok _).mpr (by simp)

/-- The id and the priority of a template, if it has them, are whole numbers of their ranges. -/
def Template.NumbersFit (field : String → Option Json) : Prop :=
  (∀ v, field "id" = some v → WholeRange.signed64.Holds v) ∧
    ∀ v, field "priority" = some v → WholeRange.signed32.Holds v

theorem Template.reads :
    ReadsIf Settings.templateSchema ofJson fun doc => NumbersFit doc.value? := by
  refine .record fun given hthere hfits => ?_
  simp only [List.forall_mem_cons] at hfits hthere
  obtain ⟨hcompany, hconfig, hdocumentType, hid, hitemType, hname, hpriority, -⟩ := hfits
  obtain ⟨hname', hitemType', -⟩ := hthere
  refine (exists_bind_ok (reads_nullableText.withDefault hcompany) fun _ =>
    exists_bind_ok (JoinConfig.reads.withDefault hconfig) fun _ =>
    exists_bind_ok (reads_nullableText.withDefault hdocumentType) fun _ =>
    exists_bind_ok ((readsIf_whole _ _).withDefault hid) fun _ =>
    exists_bind_ok (reads_itemType.required hitemType' hitemType) fun _ =>
    exists_bind_ok ((reads_text 1).required hname' hname) fun _ =>
    exists_bind_ok ((readsIf_whole _ _).withDefault hpriority) fun _ => exists_ok _).trans ?_
  simp [NumbersFit]

def MappingSection.NumbersFit (field : String → Option Json) : Prop :=
  ∀ items, field "templates" = some (.array items) →
    ∀ item ∈ items, Template.NumbersFit item.value?

theorem MappingSection.reads : ReadsIf
    (.record [] [("defaults", .list Settings.bindingSchema),
      ("templates", .list Settings.templateSchema)]) ofJson fun doc => NumbersFit doc.value? := by
  refine .record fun given _ hfits => ?_
  simp only [List.forall_mem_cons] at hfits
  obtain ⟨hbindings, htemplates, -⟩ := hfits
  refine (exists_bind_ok (NamedBinding.reads.list.withDefault hbindings) fun _ =>
    exists_bind_ok (Template.reads.list.withDefault htemplates) fun _ => exists_ok _).trans ?_
  rw [and_true, true_and, NumbersFit]
  constructor
  · exact fun h items hitems => h _ hitems items rfl
  · rintro h _ hitems items rfl
    exact h items hitems

namespace Settings

/-- The number of workers and the ids and priorities of templates are whole numbers of their
ranges. -/
def NumbersFit (field : String → Option Json) : Prop :=
  (∀ v, field "workerCount" = some v → WholeRange.size.Holds v) ∧
    ∀ v, field "mapping" = some v → MappingSection.NumbersFit v.value?

theorem reads : ReadsIf schema ofJson fun doc => NumbersFit doc.value? := by
  refine .record fun given hthere hfits => ?_
  simp only [List.forall_mem_cons] at hfits hthere
  obtain ⟨-, hdatabase, hmapping, hrule, hflatten, hroot, hversion, hworkers, -⟩ := hfits
  obtain ⟨hversion', hroot', -⟩ := hthere
  refine (exists_bind_ok ((reads_text 1).optional.withDefault hdatabase) fun _ =>
    exists_bind_ok (MappingSection.reads.withDefault hmapping) fun _ =>
    exists_bind_ok (MatchRule.reads.withDefault hrule) fun _ =>
    exists_bind_ok (FlattenOptions.reads.withDefault hflatten) fun _ =>
    exists_bind_ok ((reads_text 1).required hroot' hroot) fun _ =>
    exists_bind_ok ((reads_constant _).required hversion' hversion) fun _ =>
    exists_bind_ok ((((readsIf_whole _ _).map _).map _).withDefault hworkers) fun _ =>
    exists_ok _).trans ?_
  simp only [NumbersFit, true_and, and_true]
  exact and_comm

end Settings

/-! What is read has passed the schema. -/

section

variable {α : Type} {schema : Schema} {read : Read α} {holds : α → Prop}

/-- Whatever is read from a document that fits has a property. -/
def Ensures (schema : Schema) (read : Read α) (holds : α → Prop) : Prop :=
  ∀ ⦃doc a⦄, schema.Fits doc → read (.ofJson doc) = .ok a → holds a

theorem Ensures.required (h : Ensures schema read holds) {name : String} {value : Option Json}
    {a : α} (hvalue : ∀ v, value = some v → schema.Fits v)
    (hread : (slotOf name value).required read = .ok a) : holds a := by
  cases value with
  | none => cases hread
  | some doc => exact h (hvalue doc rfl) hread

theorem Ensures.withDefault (h : Ensures schema read holds) {default : α}
    (hdefault : holds default) {name : String} {value : Option Json} {a : α}
    (hvalue : ∀ v, value = some v → schema.Fits v)
    (hread : (slotOf name value).withDefault default read = .ok a) : holds a := by
  cases value with
  | none =>
    cases hread
    exact hdefault
  | some doc => exact h (hvalue doc rfl) hread

theorem ensures_constant (value : String) : Ensures (.constant value) readText (· = value) := by
  intro doc s hfits hread
  obtain rfl := Schema.fits_constant_iff.mp hfits
  cases hread
  rfl

theorem ensures_someText : Ensures Settings.someText readText (·.isEmpty = false) := by
  intro doc s hfits hread
  obtain ⟨text, rfl, hlength⟩ := Schema.fits_text_iff.mp hfits
  cases hread
  rw [String.isEmpty_eq_false_iff]
  rintro rfl
  cases hlength

theorem ensures_workers : Ensures (.whole (some 1))
    (fun doc => (readNat WholeRange.size doc).map some) (· ≠ some 0) := by
  intro doc workers hfits hread
  cases workers with
  | none => exact nofun
  | some n =>
    obtain ⟨m, hwhole, rfl⟩ := readNat_eq_ok.mp ((Json.map_some_eq_ok_some _ _).mp hread)
    obtain ⟨rfl, -⟩ := readWhole_eq_ok hwhole
    have hleast := Schema.fits_whole_integer_iff.mp hfits 1 rfl
    rw [ne_eq, Option.some_inj]
    omega

theorem FlattenOptions.ensures : Ensures
    (.record [] [("arrayDelimiter", .text 0), ("flattenSeparator", Settings.someText)])
    ofJson (·.separator.isEmpty = false) := by
  intro doc options hfits hread
  obtain ⟨given, rfl, hgiven⟩ := Schema.fits_record_iff.mp hfits
  obtain ⟨slot, hslot, hrecord⟩ := Except.bind_eq_ok.mp hread
  obtain rfl := Json.slots_eq_ok hslot
  simp only [Except.bind_eq_ok] at hrecord
  obtain ⟨_, -, separator, hseparator, ⟨⟩⟩ := hrecord
  exact ensures_someText.withDefault (by decide)
    (hgiven.fits ("flattenSeparator", Settings.someText) (by simp)) hseparator

end

namespace Settings

/-- What is read from a document that fits breaks no rule but those of the mapping. -/
theorem sound_of_fits {doc : Json} {s : Settings} (hfits : schema.Fits doc)
    (hread : ofJson (.ofJson doc) = .ok s) :
    s.version = knownVersion ∧ s.workerCount ≠ some 0 ∧ s.flatten.separator.isEmpty = false := by
  obtain ⟨given, rfl, hgiven⟩ := Schema.fits_record_iff.mp hfits
  obtain ⟨slot, hslot, hrecord⟩ := Except.bind_eq_ok.mp hread
  obtain rfl := Json.slots_eq_ok hslot
  simp only [Except.bind_eq_ok] at hrecord
  obtain ⟨_, -, _, -, _, -, flatten, hflatten, _, -, version, hversion, workers, hworkers,
    hrecord⟩ := hrecord
  cases hrecord
  have hfits := hgiven.fits
  simp only [List.forall_mem_cons] at hfits
  obtain ⟨-, -, -, -, hflatten', -, hversion', hworkers', -⟩ := hfits
  refine ⟨(ensures_constant _).required hversion' hversion, ?_,
    FlattenOptions.ensures.withDefault (by decide) hflatten' hflatten⟩
  have hnone : (none : Option Nat) ≠ some 0 := nofun
  exact ensures_workers.withDefault hnone hworkers' hworkers

theorem check_of_fits {doc : Json} {s : Settings} (hfits : schema.Fits doc)
    (hread : ofJson (.ofJson doc) = .ok s) : s.check = s.mapping.check.mapError .mapping := by
  obtain ⟨hversion, hworkers, hseparator⟩ := sound_of_fits hfits hread
  rw [check, if_neg (not_not.mpr hversion), if_neg hworkers, if_neg (by simp [hseparator])]

/-- A document that fits can still be refused for a number and for its mapping. -/
theorem ofDocument_of_fits {doc : Json} (hfits : schema.Fits doc) : ofDocument doc =
    match Json.decode ofJson doc with
    | .error found => .error (.mismatch found)
    | .ok s => (s.mapping.check.mapError .mapping).map fun _ => s := by
  cases hread : Json.decode ofJson doc with
  | error found =>
    rw [Schema.Fits] at hfits
    rw [ofDocument, hfits, hread]
    rfl
  | ok s =>
    have hcheck := check_of_fits hfits hread
    rw [Schema.Fits] at hfits
    rw [ofDocument, hfits, hread]
    dsimp only
    rw [← hcheck]
    cases hresult : s.check with
    | error e => simp only [Except.mapError, bind, Except.bind, Except.map, hresult]
    | ok _ => simp only [Except.mapError, bind, Except.bind, Except.map, hresult]

theorem ofDocument_of_not_fits {doc : Json} (h : ¬ schema.Fits doc) :
    ∃ errors, ofDocument doc = .error (.schema errors) := by
  rw [Schema.Fits] at h
  rw [ofDocument]
  cases herrors : Schema.check [] schema doc with
  | nil => exact absurd herrors h
  | cons e rest => exact ⟨_, rfl⟩

theorem ofDocument_ne_invalid (doc : Json) (rule : Rule) :
    ofDocument doc ≠ .error (.invalid rule) := by
  by_cases hfits : schema.Fits doc
  · rw [ofDocument_of_fits hfits]
    cases Json.decode ofJson doc with
    | error found => exact nofun
    | ok s =>
      dsimp only
      cases s.mapping.check <;> exact nofun
  · obtain ⟨errors, herrors⟩ := ofDocument_of_not_fits hfits
    rw [herrors]
    exact nofun

theorem load_of_read {text : String} {doc : Json} (h : Json.read text = .ok doc) :
    load text = ofDocument doc.sorted := by
  rw [load, h]

/-- The schema leaves no rule to be broken but those of the mapping: settings are never
refused for their version, their number of workers or their separator. A document that fits
is read exactly if its number of workers and the ids and priorities of its templates are
written as whole numbers of their ranges, so it is refused for a mismatch only if one of
them is not. -/
theorem schema_subsumes :
    (∀ text rule, load text ≠ .error (.invalid rule)) ∧
    (∀ doc : Json, schema.Fits doc.sorted →
      ((∃ s, Json.decode ofJson doc.sorted = .ok s) ↔ NumbersFit doc.sorted.value?)) ∧
    (∀ text found, load text = .error (.mismatch found) → ∃ doc, Json.read text = .ok doc ∧
      schema.Fits doc.sorted ∧ ¬ NumbersFit doc.sorted.value?) := by
  have hreads : ∀ doc : Json, schema.Fits doc.sorted →
      ((∃ s, Json.decode ofJson doc.sorted = .ok s) ↔ NumbersFit doc.sorted.value?) :=
    fun doc hfits => reads ⟨doc.sorted_distinctKeys, hfits⟩
  refine ⟨fun text rule => ?_, hreads, fun text found hload => ?_⟩
  · cases hdoc : Json.read text with
    | error e =>
      rw [load, hdoc]
      exact nofun
    | ok doc =>
      rw [load_of_read hdoc]
      exact ofDocument_ne_invalid _ rule
  · cases hdoc : Json.read text with
    | error e =>
      rw [load, hdoc] at hload
      cases hload
    | ok doc =>
      rw [load_of_read hdoc] at hload
      by_cases hfits : schema.Fits doc.sorted
      · refine ⟨doc, rfl, hfits, fun hnumbers => ?_⟩
        obtain ⟨s, hs⟩ := (hreads doc hfits).mpr hnumbers
        rw [ofDocument_of_fits hfits, hs] at hload
        dsimp only at hload
        cases hmapping : s.mapping.check <;> rw [hmapping] at hload <;> cases hload
      · obtain ⟨errors, herrors⟩ := ofDocument_of_not_fits hfits
        rw [herrors] at hload
        cases hload

private def withWorkers (workers : Number) : Json :=
  .object [("version", .string knownVersion), ("storageRoot", .string "left"),
    ("workerCount", .number workers)]

/-- Two workers are read from a whole number, but not from one with a point. -/
theorem schema_subsumes_point :
    NumbersFit (withWorkers (.integer 2)).sorted.value? ∧
      ¬ NumbersFit (withWorkers (.real ⟨false, ⟨4503599627370496, -51⟩⟩)).sorted.value? := by
  obtain ⟨-, hreads, -⟩ := schema_subsumes
  constructor
  · refine (hreads _ (List.isEmpty_iff.mp (by decide +kernel))).mp ?_
    exact ⟨⟨knownVersion, none, "left", some 2, .standard, .tolerant, .empty⟩, by decide +kernel⟩
  · refine mt (hreads _ (List.isEmpty_iff.mp (by decide +kernel))).mpr ?_
    rintro ⟨s, hs⟩
    have herror : Json.decode ofJson (withWorkers
        (.real ⟨false, ⟨4503599627370496, -51⟩⟩)).sorted =
        .error (.fractional ⟨false, ⟨4503599627370496, -51⟩⟩ .size) := by decide +kernel
    rw [herror] at hs
    cases hs

end Settings

end Collate
