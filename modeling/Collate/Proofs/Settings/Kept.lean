import Collate.Proofs.Json.Decoded
import Collate.Proofs.Json.Written
import Collate.Proofs.Settings.Schema
import Collate.Proofs.Store.Steps
import Collate.Settings.Load

/-!
What survives being written and read again. Schema, reader and writer of a kind of value
are three separate descriptions of its form. They agree if whatever is read from a document
that fits the schema is written as a document that fits it too and reads back as the same
value. Scalars agree one by one, containers if their parts do, and a record if its fields
do: a field may be required, have a default, be left out when there is nothing to say, or
keep apart what is absent and what is null.
-/

namespace Collate

open Json (Read Slot slots slotOf presentFields Mismatch readText readBool readWhole readNat
  readOptional readList readItems readDict readEntries)

namespace Json

variable {room : Nat}

/-- A document that is read from its own text where so many containers may be opened. -/
structure Plain (room : Nat) (doc : Json) : Prop where
  sized : doc.Sized room
  floatFree : doc.FloatFree

theorem Plain.of_scalar {doc : Json} (h : doc.isScalar = true) (hnumber : ∀ n, doc ≠ .number n) :
    doc.Plain room := by
  refine ⟨.of_scalar h fun n => hnumber _, fun x hx => ?_⟩
  rw [within_scalar_iff h] at hx
  exact hnumber _ hx.symm

theorem Plain.ofInt {n : Int} (h : Number.IsWord n) : (Json.ofInt n).Plain room := by
  refine ⟨.of_word h, fun x hx => ?_⟩
  rw [Json.ofInt, within_scalar_iff rfl] at hx
  cases hx

theorem Plain.array {items : List Json} (h : ∀ item ∈ items, item.Plain room) :
    (Json.array items).Plain (room + 1) :=
  ⟨sized_array_iff.mpr fun item hitem => (h item hitem).sized,
    .of_items fun item hitem => (h item hitem).floatFree⟩

theorem Plain.object {fields : List (String × Json)}
    (h : ∀ field ∈ fields, field.2.Plain room) : (Json.object fields).Plain (room + 1) :=
  ⟨sized_object_iff.mpr fun field hfield => (h field hfield).sized,
    .of_fields fun field hfield => (h field hfield).floatFree⟩

end Json

open Json (Plain)

variable {α : Type} {room : Nat} {schema : Schema} {read : Read α} {write : α → Json}

/-- What is written of a value is plain, fits the schema and is read back, its keys in order. -/
structure Survives (room : Nat) (schema : Schema) (read : Read α) (write : α → Json) (a : α) :
    Prop where
  plain : (write a).Plain room
  fits : schema.Fits (write a).sorted
  reads : read (.ofJson (write a).sorted) = .ok a

/-- Whatever is read from a document that fits the schema survives. -/
def Keeps (room : Nat) (schema : Schema) (read : Read α) (write : α → Json) : Prop :=
  ∀ ⦃doc a⦄, schema.Fits doc → read (.ofJson doc) = .ok a → Survives room schema read write a

/-! Scalars. -/

theorem keeps_text (room least : Nat) : Keeps room (.text least) readText .string := by
  intro doc s hfits hread
  obtain ⟨t, rfl, hlength⟩ := Schema.fits_text_iff.mp hfits
  cases hread
  exact ⟨.of_scalar rfl nofun, Schema.fits_text_iff.mpr ⟨_, rfl, hlength⟩, rfl⟩

theorem keeps_constant (room : Nat) (value : String) :
    Keeps room (.constant value) readText .string := by
  intro doc s hfits hread
  obtain rfl := Schema.fits_constant_iff.mp hfits
  cases hread
  exact ⟨.of_scalar rfl nofun, Schema.fits_constant_iff.mpr rfl, rfl⟩

theorem keeps_nullableText (room : Nat) :
    Keeps room .nullableText (readOptional readText) (Json.ofOption .string) := by
  intro doc s hfits hread
  rcases Schema.fits_nullableText_iff.mp hfits with rfl | ⟨t, rfl⟩
  · cases hread
    exact ⟨.of_scalar rfl nofun, Schema.fits_nullableText_iff.mpr (.inl rfl), rfl⟩
  · cases hread
    exact ⟨.of_scalar rfl nofun, Schema.fits_nullableText_iff.mpr (.inr ⟨_, rfl⟩), rfl⟩

theorem keeps_truth (room : Nat) : Keeps room .truth readBool .bool := by
  intro doc b hfits hread
  obtain ⟨b', rfl⟩ := Schema.fits_truth_iff.mp hfits
  cases hread
  exact ⟨.of_scalar rfl nofun, Schema.fits_truth_iff.mpr ⟨_, rfl⟩, rfl⟩

theorem keeps_itemType (room : Nat) :
    Keeps room Settings.itemTypeSchema ItemType.ofJson ItemType.toJson := by
  intro doc t hfits hread
  have hsurvives : ∀ t : ItemType,
      Survives room Settings.itemTypeSchema ItemType.ofJson ItemType.toJson t := by
    intro t
    refine ⟨.of_scalar rfl nofun, Schema.fits_choice_iff.mpr ⟨t.name, ?_, rfl⟩, ?_⟩
    · cases t <;> decide
    · cases t <;> rfl
  exact hsurvives t

def WholeRange.InWord (range : WholeRange) : Prop :=
  Number.IsWord range.least ∧ Number.IsWord range.greatest

theorem readWhole_eq_ok {range : WholeRange} {doc : Json} {n : Int}
    (h : readWhole range (.ofJson doc) = .ok n) :
    doc = .number (.integer n) ∧ range.least ≤ n ∧ n ≤ range.greatest := by
  cases doc with
  | number x =>
    cases x with
    | integer m =>
      simp only [Draft.ofJson, readWhole] at h
      split at h
      · rename_i hrange
        cases h
        simpa using hrange
      · cases h
    | real x => cases h
  | _ => cases h

theorem survives_whole {least : Option Int} {range : WholeRange} {n : Int} (hrange : range.InWord)
    (hleast : ∀ m, least = some m → m ≤ n) (hlow : range.least ≤ n) (hhigh : n ≤ range.greatest) :
    Survives room (.whole least) (readWhole range) Json.ofInt n where
  plain := .ofInt ⟨Int.le_trans hrange.1.1 hlow, Int.le_trans hhigh hrange.2.2⟩
  fits := Schema.fits_whole_integer_iff.mpr hleast
  reads := if_pos (by simp [hlow, hhigh])

theorem keeps_whole (room : Nat) (least : Option Int) {range : WholeRange} (hrange : range.InWord) :
    Keeps room (.whole least) (readWhole range) Json.ofInt := by
  intro doc n hfits hread
  obtain ⟨rfl, hlow, hhigh⟩ := readWhole_eq_ok hread
  exact survives_whole hrange (Schema.fits_whole_integer_iff.mp hfits) hlow hhigh

theorem readNat_eq_ok {range : WholeRange} {draft : Draft} {n : Nat} :
    readNat range draft = .ok n ↔ ∃ m, readWhole range draft = .ok m ∧ m.toNat = n := by
  rw [readNat]
  cases readWhole range draft <;> simp [Except.map]

theorem survives_nat {least : Option Int} {range : WholeRange} {n : Nat} (hrange : range.InWord)
    (hleast : ∀ m, least = some m → m ≤ n) (hlow : range.least ≤ n) (hhigh : n ≤ range.greatest) :
    Survives room (.whole least) (readNat range) Json.ofNat n := by
  have h : Survives room (.whole least) (readWhole range) Json.ofInt n :=
    survives_whole hrange hleast hlow hhigh
  exact ⟨h.plain, h.fits, readNat_eq_ok.mpr ⟨n, h.reads, Int.toNat_natCast n⟩⟩

theorem keeps_nat (room : Nat) (least : Option Int) {range : WholeRange} (hrange : range.InWord)
    (hpositive : 0 ≤ range.least) : Keeps room (.whole least) (readNat range) Json.ofNat := by
  intro doc n hfits hread
  obtain ⟨m, hwhole, rfl⟩ := readNat_eq_ok.mp hread
  obtain ⟨rfl, hlow, hhigh⟩ := readWhole_eq_ok hwhole
  have hm : (m.toNat : Int) = m := Int.toNat_of_nonneg (Int.le_trans hpositive hlow)
  refine survives_nat hrange ?_ ?_ ?_
  · rw [hm]
    exact Schema.fits_whole_integer_iff.mp hfits
  · rw [hm]
    exact hlow
  · rw [hm]
    exact hhigh

/-! Lists and maps. -/

theorem readItems_survive (hkeeps : Keeps room schema read write) {docs : List Json}
    {values : List α} (hfits : ∀ doc ∈ docs, schema.Fits doc)
    (hread : readItems read (Draft.ofItems docs) = .ok values) :
    ∀ a ∈ values, Survives room schema read write a := by
  induction docs generalizing values with
  | nil =>
    cases hread
    exact List.forall_mem_nil _
  | cons doc rest ih =>
    obtain ⟨hfirst, hfits⟩ := List.forall_mem_cons.mp hfits
    simp only [Draft.ofItems, readItems, Except.bind_eq_ok] at hread
    obtain ⟨a, ha, more, hmore, ⟨⟩⟩ := hread
    exact List.forall_mem_cons.mpr ⟨hkeeps hfirst ha, ih hfits hmore⟩

theorem survives_list {values : List α} (h : ∀ a ∈ values, Survives room schema read write a) :
    Survives (room + 1) (.list schema) (readList read) (fun l => .array (l.map write)) values where
  plain := .array (List.forall_mem_map.mpr fun a ha => (h a ha).plain)
  fits := by
    rw [Json.sorted_array]
    refine Schema.fits_list_iff.mpr ⟨_, rfl, ?_⟩
    rw [List.map_map]
    exact List.forall_mem_map.mpr fun a ha => (h a ha).fits
  reads := by
    rw [Json.sorted_array, List.map_map]
    exact Json.readList_written fun a ha => (h a ha).reads

theorem Keeps.list (h : Keeps room schema read write) :
    Keeps (room + 1) (.list schema) (readList read) fun values => .array (values.map write) := by
  intro doc values hfits hread
  obtain ⟨docs, rfl, hdocs⟩ := Schema.fits_list_iff.mp hfits
  exact survives_list (readItems_survive h hdocs hread)

theorem readEntries_survive (hkeeps : Keeps room schema read write)
    {fields : List (String × Json)} {entries : List (String × α)}
    (hfits : ∀ field ∈ fields, schema.Fits field.2)
    (hread : readEntries read (Draft.ofFields fields) = .ok entries) :
    ∀ e ∈ entries, Survives room schema read write e.2 := by
  induction fields generalizing entries with
  | nil =>
    cases hread
    exact List.forall_mem_nil _
  | cons field rest ih =>
    obtain ⟨hfirst, hfits⟩ := List.forall_mem_cons.mp hfits
    simp only [Draft.ofFields, readEntries, Except.bind_eq_ok] at hread
    obtain ⟨a, ha, more, hmore, ⟨⟩⟩ := hread
    exact List.forall_mem_cons.mpr ⟨hkeeps hfirst ha, ih hfits hmore⟩

theorem survives_dict {d : Dict α} (h : ∀ e ∈ d.entries, Survives room schema read write e.2) :
    Survives (room + 1) (.map schema) (readDict read)
      (fun d => .object (d.entries.map fun e => (e.1, write e.2))) d where
  plain := .object (List.forall_mem_map.mpr fun e he => (h e he).plain)
  fits := by
    rw [Json.sorted_object, Json.sortedDict_entries]
    exact Schema.fits_map_iff.mpr ⟨_, rfl, List.forall_mem_map.mpr fun e he => (h e he).fits⟩
  reads := by
    rw [Json.sorted_object, Json.sortedDict_entries]
    exact @Json.readDict_written _ read (Json.sorted ∘ write) d fun e he => (h e he).reads

theorem Keeps.dict (h : Keeps room schema read write) :
    Keeps (room + 1) (.map schema) (readDict read)
      fun d => .object (d.entries.map fun e => (e.1, write e.2)) := by
  intro doc d hfits hread
  obtain ⟨fields, rfl, hfields⟩ := Schema.fits_map_iff.mp hfits
  simp only [Draft.ofJson, readDict] at hread
  cases hentries : readEntries read (Draft.ofFields fields) with
  | error e =>
    rw [hentries] at hread
    cases hread
  | ok entries =>
    rw [hentries] at hread
    cases hread
    have hsurvive := readEntries_survive h hfields hentries
    exact survives_dict fun e he => hsurvive e (Dict.mem_ofList he)

/-! Fields. -/

/-- What is written of a field, if anything, is plain, fits the schema and is read back. -/
structure FieldSurvives (room : Nat) (schema : Schema) (readSlot : Slot → Except Mismatch α)
    (value : Option Json) (a : α) : Prop where
  written : ∀ v, value = some v → v.Plain room ∧ schema.Fits v.sorted
  reads : ∀ name, readSlot (slotOf name (value.map Json.sorted)) = .ok a

/-- Whatever is read of a field that fits the schema, if it is there, survives. -/
def KeepsField (room : Nat) (schema : Schema) (readSlot : Slot → Except Mismatch α)
    (write : α → Option Json) : Prop :=
  ∀ ⦃name value a⦄, (∀ v, value = some v → schema.Fits v) → readSlot (slotOf name value) = .ok a →
    FieldSurvives room schema readSlot (write a) a

theorem Survives.written {a : α} (h : Survives room schema read write a) :
    ∀ v, some (write a) = some v → v.Plain room ∧ schema.Fits v.sorted := by
  rintro _ ⟨⟩
  exact ⟨h.plain, h.fits⟩

theorem Survives.field {a : α} (h : Survives room schema read write a)
    {readSlot : Slot → Except Mismatch α} (hgiven : ∀ doc, readSlot (.given doc) = read doc) :
    FieldSurvives room schema readSlot (some (write a)) a :=
  ⟨h.written, fun _ => (hgiven _).trans h.reads⟩

theorem Keeps.required (h : Keeps room schema read write) :
    KeepsField room schema (·.required read) (some ∘ write) := by
  intro name value a hfits hread
  cases value with
  | some doc => exact (h (hfits doc rfl) hread).field fun _ => rfl
  | none => cases hread

/-- A field with a default, which some document that fits stands for. -/
theorem Keeps.withDefault (h : Keeps room schema read write) {default : α} (doc : Json)
    (hdoc : schema.Fits doc) (hdefault : read (.ofJson doc) = .ok default) :
    KeepsField room schema (·.withDefault default read) (some ∘ write) := by
  intro name value a hfits hread
  cases value with
  | some doc => exact (h (hfits doc rfl) hread).field fun _ => rfl
  | none =>
    cases hread
    exact (h hdoc hdefault).field fun _ => rfl

/-- A field that is left out when there is nothing to say. -/
theorem Keeps.leftOut (h : Keeps room schema read write) {reader : Read (Option α)}
    (hsome : ∀ doc a, reader doc = .ok (some a) ↔ read doc = .ok a) :
    KeepsField room schema (·.withDefault none reader) (Option.map write) := by
  intro name value found hfits hread
  have hsurvives : ∀ a, found = some a → Survives room schema read write a := by
    rintro a rfl
    cases value with
    | some doc => exact h (hfits doc rfl) ((hsome _ _).mp hread)
    | none => cases hread
  refine ⟨fun v hv => ?_, fun name => ?_⟩
  · obtain ⟨a, ha, rfl⟩ := Option.map_eq_some_iff.mp hv
    exact (hsurvives a ha).written _ rfl
  · rw [Option.map_map]
    exact Json.leftOut_written hsome (fun a ha => (hsurvives a ha).reads) name

def Change.written {α : Type} (write : α → Json) : Change α → Option Json
  | .keep => none
  | .clear => some .null
  | .set value => some (write value)

namespace ConfigLayer

def fields (l : ConfigLayer) : List (String × Option Json) :=
  [("masterCsvPath", l.masterCsv.written .string),
    ("externalJoinKeys", l.externalKeys.map Json.ofTexts),
    ("internalJoinKey", l.internalKey.written .string),
    ("columnAliases", l.aliases.map Json.ofTextDict)]

theorem toJson_eq (l : ConfigLayer) : l.toJson = .object (presentFields l.fields) := by
  obtain ⟨master, external, internal, aliases⟩ := l
  cases master <;> cases external <;> cases internal <;> cases aliases <;> rfl

theorem fields_nodup (l : ConfigLayer) : (l.fields.map (·.1)).Nodup := by
  simp [fields]

end ConfigLayer

/-- What is absent, what is null and what is set are told from each other. -/
theorem ofSlot_written (name : String) (change : Change String) :
    Change.ofSlot readText (slotOf name (change.written .string)) = .ok change := by
  cases change <;> rfl

theorem keepsField_change (room : Nat) :
    KeepsField room .nullableText (Change.ofSlot readText) (Change.written .string) := by
  intro _ _ change _ _
  refine ⟨fun v hv => ?_, fun name => ?_⟩
  · cases change with
    | keep => cases hv
    | clear =>
      cases hv
      exact ⟨.of_scalar rfl nofun, Schema.fits_nullableText_iff.mpr (.inl rfl)⟩
    | set text =>
      cases hv
      exact ⟨.of_scalar rfl nofun, Schema.fits_nullableText_iff.mpr (.inr ⟨text, rfl⟩)⟩
  -- neither a null nor a text has keys that could be put in order
  · have hwritten := ofSlot_written name change
    cases change <;> exact hwritten

/-! Records. -/

structure RecordSurvives (room : Nat) (required : List String) (schemas : List (String × Schema))
    (read : (String → Slot) → Except Mismatch α) (fields : List (String × Option Json)) (a : α) :
    Prop where
  nodup : (fields.map (·.1)).Nodup
  there : ∀ key ∈ required, ∃ v, (key, some v) ∈ fields
  written : ∀ field ∈ fields, ∃ schema, schemas.lookup field.1 = some schema ∧
    ∀ v, field.2 = some v → v.Plain room ∧ schema.Fits v.sorted
  reads : read (fun name => slotOf name ((fields.lookup name).join.map Json.sorted)) = .ok a

section

variable {names required : List String} {schemas : List (String × Schema)}
  {readRecord : (String → Slot) → Except Mismatch α} {fields : List (String × Option Json)} {a : α}

theorem RecordSurvives.field (h : RecordSurvives room required schemas readRecord fields a)
    {name : String} {value : Json} (hvalue : (fields.lookup name).join = some value) :
    ∃ schema, schemas.lookup name = some schema ∧ value.Plain room ∧
      schema.Fits value.sorted := by
  rw [Option.join_eq_some_iff, lookup_eq_some_iff_mem h.nodup] at hvalue
  obtain ⟨schema, hschema, hwritten⟩ := h.written _ hvalue
  exact ⟨schema, hschema, hwritten value rfl⟩

/-- What is written of a record fits and is read back, its keys in order. -/
theorem survives_record (fields : List (String × Option Json))
    (hschemas : (schemas.map (·.1)).Nodup) (hwrite : write a = .object (presentFields fields))
    (h : RecordSurvives room required schemas readRecord fields a) :
    Survives (room + 1) (.record required schemas)
      (fun doc => do let slot ← slots names doc; readRecord slot) write a := by
  let kept := Json.sortedDict (presentFields fields)
  -- sorting moves fields, but under each name stands what was written there
  have hkept : ∀ name, kept.entries.lookup name = (fields.lookup name).join.map Json.sorted := by
    intro name
    rw [Json.lookup_sortedDict (h.nodup.sublist (Json.presentFields_keys fields)),
      Json.lookup_presentFields h.nodup]
  have hfield : ∀ name v, kept.entries.lookup name = some v →
      ∃ schema, schemas.lookup name = some schema ∧ schema.Fits v := by
    intro name v hv
    obtain ⟨w, hw, rfl⟩ := Option.map_eq_some_iff.mp ((hkept name).symm.trans hv)
    obtain ⟨schema, hschema, -, hfits⟩ := h.field hw
    exact ⟨schema, hschema, hfits⟩
  have hsorted : (write a).sorted = .object kept.entries := by
    rw [hwrite, Json.sorted_object]
  refine ⟨?_, ?_, ?_⟩
  · rw [hwrite]
    refine .object fun field hmem => ?_
    obtain ⟨_, -, hwritten⟩ := h.written _ (Json.mem_presentFields.mp hmem)
    exact (hwritten _ rfl).1
  · rw [hsorted]
    refine Schema.fits_record_iff.mpr ⟨_, rfl, fun key hkey => ?_, ?_, fun key hkey => ?_⟩
    · obtain ⟨v, hv⟩ := h.there key hkey
      rw [hkept, (lookup_eq_some_iff_mem h.nodup).mpr hv]
      rfl
    · intro field hmem v hv
      -- the schema that the value is written for is the only one under this name
      obtain ⟨schema, hschema, hfits⟩ := hfield field.1 v hv
      rw [(lookup_eq_some_iff_mem hschemas).mpr hmem] at hschema
      cases hschema
      exact hfits
    · obtain ⟨field, hmem, rfl⟩ := List.mem_map.mp hkey
      obtain ⟨schema, hschema, -⟩ :=
        hfield field.1 field.2 ((lookup_eq_some_iff_mem kept.keys_nodup).mpr hmem)
      exact List.mem_map_of_mem ((lookup_eq_some_iff_mem hschemas).mp hschema)
  · rw [hsorted, Json.slots_of_nodup kept.keys_nodup]
    simp only [hkept]
    exact h.reads

/-- A record whose fields survive survives. -/
theorem keeps_record (fields : α → List (String × Option Json))
    (hschemas : (schemas.map (·.1)).Nodup)
    (hwrite : ∀ a, write a = .object (presentFields (fields a)))
    (h : ∀ (given : String → Option Json) (a : α),
      (∀ field ∈ schemas, ∀ v, given field.1 = some v → field.2.Fits v) →
      readRecord (fun name => slotOf name (given name)) = .ok a →
      RecordSurvives room required schemas readRecord (fields a) a) :
    Keeps (room + 1) (.record required schemas)
      (fun doc => do let slot ← slots names doc; readRecord slot) write := by
  intro doc a hfits hread
  obtain ⟨given, rfl, hgiven⟩ := Schema.fits_record_iff.mp hfits
  obtain ⟨slot, hslot, hrecord⟩ := Except.bind_eq_ok.mp hread
  rw [Json.slots_eq_ok hslot] at hrecord
  exact survives_record _ hschemas (hwrite a) (h _ a hgiven.fits hrecord)

end

end Collate
