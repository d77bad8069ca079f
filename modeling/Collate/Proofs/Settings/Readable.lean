import Collate.Proofs.Settings.Kept

/-!
What is accepted and then read. A schema and a reader of the same form are two
descriptions of it; here they are compared over all documents that fit the schema and have
no key twice. Scalars but for whole numbers are always read, containers if their parts are,
and a record if what stands in its fields is; a number is read if it is written as a whole
one and lies in its range.
-/

namespace Collate

open Json (Read Slot Mismatch slots slotOf readText readBool readWhole readNat readOptional
  readList readItems readDict readEntries)

namespace Json

mutual

/-- Sorting leaves no key twice. -/
theorem sorted_distinctKeys : ∀ doc : Json, doc.sorted.DistinctKeys
  | .array items => by
    rw [sorted_array]
    exact .of_items (List.forall_mem_map.mpr (sortedItems_distinctKeys items))
  | .object fields => by
    rw [sorted_object]
    refine .of_fields (sortedDict fields).keys_nodup fun field hfield => ?_
    obtain ⟨given, hgiven, rfl⟩ := List.mem_map.mp (Dict.mem_ofList hfield)
    exact sortedFields_distinctKeys fields given hgiven
  | .null => .of_scalar rfl
  | .bool _ => .of_scalar rfl
  | .number _ => .of_scalar rfl
  | .string _ => .of_scalar rfl

theorem sortedItems_distinctKeys : ∀ items : List Json, ∀ item ∈ items, item.sorted.DistinctKeys
  | [], _, h => nomatch h
  | first :: rest, item, h => by
    rcases List.mem_cons.mp h with hfirst | hrest
    · rw [hfirst]
      exact sorted_distinctKeys first
    · exact sortedItems_distinctKeys rest item hrest

theorem sortedFields_distinctKeys : ∀ fields : List (String × Json), ∀ field ∈ fields,
    field.2.sorted.DistinctKeys
  | [], _, h => nomatch h
  | (key, value) :: rest, field, h => by
    rcases List.mem_cons.mp h with hfirst | hrest
    · rw [hfirst]
      exact sorted_distinctKeys value
    · exact sortedFields_distinctKeys rest field hrest

end

def value? (doc : Json) (key : String) : Option Json :=
  match doc with
  | .object fields => fields.lookup key
  | _ => none

end Json

def WholeRange.Holds (range : WholeRange) (doc : Json) : Prop :=
  ∃ n, doc = .number (.integer n) ∧ range.least ≤ n ∧ n ≤ range.greatest

variable {α β : Type} {schema : Schema} {read : Read α} {sound : Json → Prop}

structure Schema.Accepts (schema : Schema) (doc : Json) : Prop where
  distinct : doc.DistinctKeys
  fits : schema.Fits doc

/-- An accepted document is read exactly if it is sound. -/
def ReadsIf (schema : Schema) (read : Read α) (sound : Json → Prop) : Prop :=
  ∀ ⦃doc⦄, schema.Accepts doc → ((∃ a, read (.ofJson doc) = .ok a) ↔ sound doc)

def Reads (schema : Schema) (read : Read α) : Prop :=
  ReadsIf schema read fun _ => True

theorem Reads.of_ok (h : ∀ ⦃doc⦄, schema.Accepts doc → ∃ a, read (.ofJson doc) = .ok a) :
    Reads schema read :=
  fun _ haccepted => iff_true_intro (h haccepted)

/-! Scalars. -/

theorem reads_text (least : Nat) : Reads (.text least) readText := by
  refine .of_ok fun doc haccepted => ?_
  obtain ⟨s, rfl, -⟩ := Schema.fits_text_iff.mp haccepted.fits
  exact ⟨s, rfl⟩

theorem reads_constant (value : String) : Reads (.constant value) readText := by
  refine .of_ok fun doc haccepted => ?_
  obtain rfl := Schema.fits_constant_iff.mp haccepted.fits
  exact ⟨value, rfl⟩

theorem reads_truth : Reads .truth readBool := by
  refine .of_ok fun doc haccepted => ?_
  obtain ⟨b, rfl⟩ := Schema.fits_truth_iff.mp haccepted.fits
  exact ⟨b, rfl⟩

theorem reads_nullableText : Reads .nullableText (readOptional readText) := by
  refine .of_ok fun doc haccepted => ?_
  rcases Schema.fits_nullableText_iff.mp haccepted.fits with rfl | ⟨s, rfl⟩
  · exact ⟨none, rfl⟩
  · exact ⟨some s, rfl⟩

theorem reads_itemType : Reads Settings.itemTypeSchema ItemType.ofJson := by
  refine .of_ok fun doc haccepted => ?_
  obtain ⟨s, hs, rfl⟩ := Schema.fits_choice_iff.mp haccepted.fits
  simp only [List.mem_cons, List.not_mem_nil, or_false] at hs
  rcases hs with rfl | rfl
  · exact ⟨.singleSource, rfl⟩
  · exact ⟨.multiSource, rfl⟩

theorem readsIf_whole (least : Option Int) (range : WholeRange) :
    ReadsIf (.whole least) (readWhole range) range.Holds := by
  intro doc _
  constructor
  · rintro ⟨n, hread⟩
    exact ⟨n, readWhole_eq_ok hread⟩
  · rintro ⟨n, rfl, hlow, hhigh⟩
    exact ⟨n, if_pos (by simp [hlow, hhigh])⟩

/-! Readers made of others. -/

theorem ReadsIf.map (h : ReadsIf schema read sound) (f : α → β) :
    ReadsIf schema (fun doc => (read doc).map f) sound := by
  intro doc haccepted
  rw [← h haccepted]
  dsimp only
  generalize read (.ofJson doc) = result
  cases result <;> simp [Except.map]

theorem Reads.optional (h : Reads schema read) : Reads schema (readOptional read) := by
  refine .of_ok fun doc haccepted => ?_
  obtain ⟨a, ha⟩ := (h haccepted).mpr trivial
  unfold readOptional
  split
  · exact ⟨none, rfl⟩
  · exact ⟨some a, by rw [ha]; rfl⟩

theorem exists_bind_ok {x : Except Mismatch α} {f : α → Except Mismatch β} {p q : Prop}
    (hx : (∃ a, x = .ok a) ↔ p) (hf : ∀ a, (∃ b, f a = .ok b) ↔ q) :
    (∃ b, (x >>= f) = .ok b) ↔ p ∧ q := by
  simp only [Except.bind_eq_ok]
  constructor
  · rintro ⟨b, a, ha, hb⟩
    exact ⟨hx.mp ⟨a, ha⟩, (hf a).mp ⟨b, hb⟩⟩
  · rintro ⟨hp, hq⟩
    obtain ⟨a, ha⟩ := hx.mpr hp
    obtain ⟨b, hb⟩ := (hf a).mpr hq
    exact ⟨b, a, ha, hb⟩

theorem exists_ok (a : α) : (∃ b, (.ok a : Except Mismatch α) = .ok b) ↔ True :=
  iff_true_intro ⟨a, rfl⟩

theorem exists_readItems_iff (h : ReadsIf schema read sound) {docs : List Json}
    (haccepted : ∀ doc ∈ docs, schema.Accepts doc) :
    (∃ values, readItems read (Draft.ofItems docs) = .ok values) ↔ ∀ doc ∈ docs, sound doc := by
  induction docs with
  | nil => exact iff_of_true ⟨[], rfl⟩ nofun
  | cons doc rest ih =>
    obtain ⟨hfirst, hrest⟩ := List.forall_mem_cons.mp haccepted
    rw [List.forall_mem_cons]
    refine exists_bind_ok (h hfirst) fun _ => ?_
    exact (exists_bind_ok (ih hrest) fun _ => exists_ok _).trans (and_iff_left trivial)

theorem ReadsIf.list (h : ReadsIf schema read sound) :
    ReadsIf (.list schema) (readList read) fun doc =>
      ∀ items, doc = .array items → ∀ item ∈ items, sound item := by
  intro doc haccepted
  obtain ⟨items, rfl, hitems⟩ := Schema.fits_list_iff.mp haccepted.fits
  refine (exists_readItems_iff h fun item hitem =>
    ⟨haccepted.distinct.item hitem, hitems item hitem⟩).trans ?_
  simp

theorem Reads.list (h : Reads schema read) : Reads (.list schema) (readList read) := by
  intro doc haccepted
  refine (ReadsIf.list h haccepted).trans ?_
  simp

theorem exists_readEntries (h : Reads schema read) {fields : List (String × Json)}
    (haccepted : ∀ field ∈ fields, schema.Accepts field.2) :
    ∃ entries, readEntries read (Draft.ofFields fields) = .ok entries := by
  induction fields with
  | nil => exact ⟨[], rfl⟩
  | cons field rest ih =>
    obtain ⟨hfirst, hrest⟩ := List.forall_mem_cons.mp haccepted
    obtain ⟨a, ha⟩ := (h hfirst).mpr trivial
    obtain ⟨more, hmore⟩ := ih hrest
    exact ⟨(field.1, a) :: more, by simp only [Draft.ofFields, readEntries, ha, hmore]; rfl⟩

theorem Reads.dict (h : Reads schema read) : Reads (.map schema) (readDict read) := by
  refine .of_ok fun doc haccepted => ?_
  obtain ⟨fields, rfl, hfields⟩ := Schema.fits_map_iff.mp haccepted.fits
  obtain ⟨entries, hentries⟩ := exists_readEntries h fun field hfield =>
    ⟨haccepted.distinct.field hfield, hfields field hfield⟩
  exact ⟨Dict.ofList entries, by simp only [Draft.ofJson, readDict, hentries, Except.map]⟩

/-! Fields. -/

section

variable {name : String} {value : Option Json}

theorem ReadsIf.withDefault (h : ReadsIf schema read sound) {default : α}
    (hvalue : ∀ v, value = some v → schema.Accepts v) :
    (∃ a, (slotOf name value).withDefault default read = .ok a) ↔
      ∀ v, value = some v → sound v := by
  cases value with
  | none => exact iff_of_true ⟨default, rfl⟩ nofun
  | some doc =>
    refine (h (hvalue doc rfl)).trans ?_
    simp

theorem Reads.withDefault (h : Reads schema read) {default : α}
    (hvalue : ∀ v, value = some v → schema.Accepts v) :
    (∃ a, (slotOf name value).withDefault default read = .ok a) ↔ True := by
  refine (ReadsIf.withDefault h hvalue).trans ?_
  simp

theorem Reads.required (h : Reads schema read) (hthere : value.isSome = true)
    (hvalue : ∀ v, value = some v → schema.Accepts v) :
    (∃ a, (slotOf name value).required read = .ok a) ↔ True := by
  obtain ⟨doc, rfl⟩ := Option.isSome_iff_exists.mp hthere
  exact h (hvalue doc rfl)

theorem reads_change (hvalue : ∀ v, value = some v → Schema.nullableText.Accepts v) :
    (∃ a, Change.ofSlot readText (slotOf name value) = .ok a) ↔ True := by
  refine iff_true_intro ?_
  cases value with
  | none => exact ⟨.keep, rfl⟩
  | some doc =>
    rcases Schema.fits_nullableText_iff.mp (hvalue doc rfl).fits with rfl | ⟨s, rfl⟩
    · exact ⟨.clear, rfl⟩
    · exact ⟨.set s, rfl⟩

end

/-! Records. -/

section

variable {names required : List String} {schemas : List (String × Schema)}
  {readRecord : (String → Slot) → Except Mismatch α}

/-- A record is read exactly if what stands in its fields is sound. -/
theorem ReadsIf.record {sound : (String → Option Json) → Prop}
    (h : ∀ given : String → Option Json, (∀ key ∈ required, (given key).isSome = true) →
      (∀ field ∈ schemas, ∀ v, given field.1 = some v → field.2.Accepts v) →
      ((∃ a, readRecord (fun name => slotOf name (given name)) = .ok a) ↔ sound given)) :
    ReadsIf (.record required schemas)
      (fun doc => do let slot ← slots names doc; readRecord slot)
      fun doc => sound doc.value? := by
  intro doc haccepted
  obtain ⟨given, rfl, hgiven⟩ := Schema.fits_record_iff.mp haccepted.fits
  have hslots : slots names (.ofJson (.object given)) =
      .ok fun name => slotOf name (given.lookup name) :=
    Json.slots_of_nodup haccepted.distinct.nodup
  dsimp only
  rw [hslots]
  refine h _ hgiven.there fun field hfield v hv => ⟨?_, hgiven.fits field hfield v hv⟩
  exact haccepted.distinct.field ((lookup_eq_some_iff_mem haccepted.distinct.nodup).mp hv)

theorem Reads.record
    (h : ∀ given : String → Option Json, (∀ key ∈ required, (given key).isSome = true) →
      (∀ field ∈ schemas, ∀ v, given field.1 = some v → field.2.Accepts v) →
      ∃ a, readRecord (fun name => slotOf name (given name)) = .ok a) :
    Reads (.record required schemas) (fun doc => do let slot ← slots names doc; readRecord slot) :=
  ReadsIf.record fun given hthere hfits => iff_true_intro (h given hthere hfits)

end

end Collate
