import Collate.Proofs.Settings.Kept

/-!
Settings survive being written and loaded again. The records they are made of are taken
from the inside out, each with the schema it is checked against; what every loaded record
has in common with its schema is shown for its fields one by one. How many workers there
are may be left to the machine, so that number may be replaced before the settings are
written.
-/

namespace Collate

open Json (Plain slotOf presentFields readText readNat readList readDict readOptional
  readOptional_eq_ok_some map_some_eq_ok_some)

variable (room : Nat)

theorem keeps_texts :
    Keeps (room + 1) (.list Settings.someText) (readList readText) Json.ofTexts :=
  (keeps_text room 1).list

theorem keeps_textDict : Keeps (room + 1) (.map (.text 0)) (readDict readText) Json.ofTextDict :=
  (keeps_text room 0).dict

theorem signed64_inWord : WholeRange.signed64.InWord := by
  constructor <;> decide

theorem signed32_inWord : WholeRange.signed32.InWord := by
  constructor <;> decide

theorem size_inWord : WholeRange.size.InWord := by
  constructor <;> decide

theorem FlattenOptions.keeps : Keeps (room + 1)
    (.record [] [("arrayDelimiter", .text 0), ("flattenSeparator", Settings.someText)])
    ofJson toJson := by
  refine keeps_record (fun o =>
    [("flattenSeparator", some (.string o.separator)),
      ("arrayDelimiter", some (.string o.delimiter))]) (by decide) (fun _ => rfl)
    fun given o hfits hread => ?_
  simp only [List.forall_mem_cons] at hfits
  obtain ⟨hdelimiter, hseparator, -⟩ := hfits
  simp only [Except.bind_eq_ok] at hread
  obtain ⟨delimiter, hread₁, separator, hread₂, ⟨⟩⟩ := hread
  have h₁ := (keeps_text room 0).withDefault (.string standard.delimiter) rfl rfl hdelimiter hread₁
  have h₂ := (keeps_text room 1).withDefault (.string standard.separator) rfl rfl hseparator hread₂
  refine ⟨by simp, by simp, ?_, ?_⟩
  · simp only [List.forall_mem_cons]
    exact ⟨⟨_, rfl, h₂.written⟩, ⟨_, rfl, h₁.written⟩, nofun⟩
  · simp only [Except.bind_eq_ok]
    exact ⟨_, h₁.reads _, _, h₂.reads _, rfl⟩

theorem MatchRule.keeps : Keeps (room + 1)
    (.record [] [("caseInsensitive", .truth), ("trim", .truth)]) ofJson toJson := by
  refine keeps_record (fun r =>
    [("trim", some (.bool r.trims)), ("caseInsensitive", some (.bool r.foldsCase))])
    (by decide) (fun _ => rfl) fun given r hfits hread => ?_
  simp only [List.forall_mem_cons] at hfits
  obtain ⟨hfolds, htrims, -⟩ := hfits
  simp only [Except.bind_eq_ok] at hread
  obtain ⟨folds, hread₁, trims, hread₂, ⟨⟩⟩ := hread
  have h₁ := (keeps_truth room).withDefault (.bool tolerant.foldsCase) rfl rfl hfolds hread₁
  have h₂ := (keeps_truth room).withDefault (.bool tolerant.trims) rfl rfl htrims hread₂
  refine ⟨by simp, by simp, ?_, ?_⟩
  · simp only [List.forall_mem_cons]
    exact ⟨⟨_, rfl, h₂.written⟩, ⟨_, rfl, h₁.written⟩, nofun⟩
  · simp only [Except.bind_eq_ok]
    exact ⟨_, h₁.reads _, _, h₂.reads _, rfl⟩

theorem JoinConfig.keeps : Keeps (room + 2) Settings.configSchema ofJson toJson := by
  refine keeps_record (fun c =>
    [("masterCsvPath", c.masterCsv.map .string),
      ("externalJoinKeys", some (Json.ofTexts c.externalKeys)),
      ("internalJoinKey", c.internalKey.map .string),
      ("columnAliases", some (Json.ofTextDict c.aliases))]) (by decide) (fun c => ?_)
    fun given c hfits hread => ?_
  · obtain ⟨master, _, internal, _⟩ := c
    cases master <;> cases internal <;> rfl
  · simp only [List.forall_mem_cons] at hfits
    obtain ⟨haliases, hexternal, hinternal, hmaster, -⟩ := hfits
    simp only [Except.bind_eq_ok] at hread
    obtain ⟨aliases, hread₁, external, hread₂, internal, hread₃, master, hread₄, ⟨⟩⟩ := hread
    have h₁ := (keeps_textDict room).withDefault (.object []) rfl rfl haliases hread₁
    have h₂ := (keeps_texts room).withDefault (.array []) rfl rfl hexternal hread₂
    have h₃ := (keeps_text (room + 1) 0).leftOut (readOptional_eq_ok_some nofun)
      hinternal hread₃
    have h₄ := (keeps_text (room + 1) 0).leftOut (readOptional_eq_ok_some nofun)
      hmaster hread₄
    refine ⟨by simp, by simp, ?_, ?_⟩
    · simp only [List.forall_mem_cons]
      exact ⟨⟨_, rfl, h₄.written⟩, ⟨_, rfl, h₂.written⟩, ⟨_, rfl, h₃.written⟩,
        ⟨_, rfl, h₁.written⟩, nofun⟩
    · simp only [Except.bind_eq_ok]
      exact ⟨_, h₁.reads _, _, h₂.reads _, _, h₃.reads _, _, h₄.reads _, rfl⟩

theorem ConfigLayer.keeps : Keeps (room + 2) Settings.layerSchema ofJson toJson := by
  refine keeps_record fields (by decide) toJson_eq fun given l hfits hread => ?_
  simp only [List.forall_mem_cons] at hfits
  obtain ⟨haliases, hexternal, hinternal, hmaster, -⟩ := hfits
  simp only [Except.bind_eq_ok] at hread
  obtain ⟨aliases, hread₁, external, hread₂, internal, hread₃, master, hread₄, ⟨⟩⟩ := hread
  have h₁ := (keeps_textDict room).leftOut (readOptional_eq_ok_some nofun) haliases hread₁
  have h₂ := (keeps_texts room).leftOut (readOptional_eq_ok_some nofun) hexternal hread₂
  have h₃ := keepsField_change (room + 1) hinternal hread₃
  have h₄ := keepsField_change (room + 1) hmaster hread₄
  refine ⟨fields_nodup _, List.forall_mem_nil _, ?_, ?_⟩
  · simp only [fields, List.forall_mem_cons]
    exact ⟨⟨_, rfl, h₄.written⟩, ⟨_, rfl, h₂.written⟩, ⟨_, rfl, h₃.written⟩,
      ⟨_, rfl, h₁.written⟩, List.forall_mem_nil _⟩
  · simp only [Except.bind_eq_ok]
    exact ⟨_, h₁.reads _, _, h₂.reads _, _, h₃.reads _, _, h₄.reads _, rfl⟩

theorem Template.keeps : Keeps (room + 3) Settings.templateSchema ofJson toJson := by
  refine keeps_record (fun t =>
    [("id", some (Json.ofInt t.id)), ("name", some (.string t.name)),
      ("itemType", some t.itemType.toJson),
      ("companyId", some (Json.ofOption .string t.company)),
      ("documentTypeId", some (Json.ofOption .string t.documentType)),
      ("priority", some (Json.ofInt t.priority)), ("config", some t.config.toJson)]) (by decide)
    (fun _ => rfl) fun given t hfits hread => ?_
  simp only [List.forall_mem_cons] at hfits
  obtain ⟨hcompany, hconfig, hdocumentType, hid, hitemType, hname, hpriority, -⟩ := hfits
  simp only [Except.bind_eq_ok] at hread
  obtain ⟨company, hread₁, config, hread₂, documentType, hread₃, id, hread₄, itemType, hread₅,
    name, hread₆, priority, hread₇, ⟨⟩⟩ := hread
  have h₁ := (keeps_nullableText (room + 2)).withDefault .null rfl rfl hcompany hread₁
  have h₂ := (JoinConfig.keeps room).withDefault (.object []) rfl rfl hconfig hread₂
  have h₃ := (keeps_nullableText (room + 2)).withDefault .null rfl rfl hdocumentType hread₃
  have h₄ := (keeps_whole (room + 2) none signed64_inWord).withDefault (Json.ofInt 0) rfl rfl
    hid hread₄
  have h₅ := (keeps_itemType (room + 2)).required hitemType hread₅
  have h₆ := (keeps_text (room + 2) 1).required hname hread₆
  have h₇ := (keeps_whole (room + 2) (some 1) signed32_inWord).withDefault
    (Json.ofInt usualPriority) rfl rfl hpriority hread₇
  refine ⟨by simp, by simp, ?_, ?_⟩
  · simp only [List.forall_mem_cons]
    exact ⟨⟨_, rfl, h₄.written⟩, ⟨_, rfl, h₆.written⟩, ⟨_, rfl, h₅.written⟩,
      ⟨_, rfl, h₁.written⟩, ⟨_, rfl, h₃.written⟩, ⟨_, rfl, h₇.written⟩, ⟨_, rfl, h₂.written⟩,
      nofun⟩
  · simp only [Except.bind_eq_ok]
    exact ⟨_, h₁.reads _, _, h₂.reads _, _, h₃.reads _, _, h₄.reads _, _, h₅.reads _, _,
      h₆.reads _, _, h₇.reads _, rfl⟩

theorem NamedBinding.keeps : Keeps (room + 3) Settings.bindingSchema ofJson toJson := by
  refine keeps_record (fun b =>
    [("companyId", some (.string b.company)), ("documentTypeId", some (.string b.documentType)),
      ("itemType", some b.itemType.toJson), ("template", some (.string b.template)),
      ("configOverride", b.layer.map ConfigLayer.toJson)]) (by decide) (fun b => ?_)
    fun given b hfits hread => ?_
  · obtain ⟨_, _, _, _, layer⟩ := b
    cases layer <;> rfl
  · simp only [List.forall_mem_cons] at hfits
    obtain ⟨hcompany, hlayer, hdocumentType, hitemType, htemplate, -⟩ := hfits
    simp only [Except.bind_eq_ok] at hread
    obtain ⟨company, hread₁, layer, hread₂, documentType, hread₃, itemType, hread₄, template,
      hread₅, ⟨⟩⟩ := hread
    have h₁ := (keeps_text (room + 2) 1).required hcompany hread₁
    have h₂ := (ConfigLayer.keeps room).leftOut (readOptional_eq_ok_some nofun)
      hlayer hread₂
    have h₃ := (keeps_text (room + 2) 1).required hdocumentType hread₃
    have h₄ := (keeps_itemType (room + 2)).required hitemType hread₄
    have h₅ := (keeps_text (room + 2) 1).required htemplate hread₅
    refine ⟨by simp, by simp, ?_, ?_⟩
    · simp only [List.forall_mem_cons]
      exact ⟨⟨_, rfl, h₁.written⟩, ⟨_, rfl, h₃.written⟩, ⟨_, rfl, h₄.written⟩,
        ⟨_, rfl, h₅.written⟩, ⟨_, rfl, h₂.written⟩, nofun⟩
    · simp only [Except.bind_eq_ok]
      exact ⟨_, h₁.reads _, _, h₂.reads _, _, h₃.reads _, _, h₄.reads _, _, h₅.reads _, rfl⟩

theorem MappingSection.keeps : Keeps (room + 5)
    (.record [] [("defaults", .list Settings.bindingSchema),
      ("templates", .list Settings.templateSchema)]) ofJson toJson := by
  refine keeps_record (fun m =>
    [("templates", some (.array (m.templates.map Template.toJson))),
      ("defaults", some (.array (m.bindings.map NamedBinding.toJson)))]) (by decide) (fun _ => rfl)
    fun given m hfits hread => ?_
  simp only [List.forall_mem_cons] at hfits
  obtain ⟨hbindings, htemplates, -⟩ := hfits
  simp only [Except.bind_eq_ok] at hread
  obtain ⟨bindings, hread₁, templates, hread₂, ⟨⟩⟩ := hread
  have h₁ := (NamedBinding.keeps room).list.withDefault (.array []) rfl rfl hbindings hread₁
  have h₂ := (Template.keeps room).list.withDefault (.array []) rfl rfl htemplates hread₂
  refine ⟨by simp, by simp, ?_, ?_⟩
  · simp only [List.forall_mem_cons]
    exact ⟨⟨_, rfl, h₂.written⟩, ⟨_, rfl, h₁.written⟩, nofun⟩
  · simp only [Except.bind_eq_ok]
    exact ⟨_, h₁.reads _, _, h₂.reads _, rfl⟩

namespace Settings

def Staffs (room : Nat) (workers : Option Nat) : Prop :=
  FieldSurvives room (.whole (some 1))
    (·.withDefault none fun doc => (readNat WholeRange.size doc).map some)
    (workers.map Json.ofNat) workers

theorem staffs_some {n : Nat} (hsome : 1 ≤ n) (hfew : (n : Int) ≤ WholeRange.size.greatest) :
    Staffs room (some n) := by
  have hleast : ∀ m, some (1 : Int) = some m → m ≤ n := by
    rintro _ ⟨⟩
    exact Int.ofNat_le.mpr hsome
  have h : Survives room (.whole (some 1)) (readNat WholeRange.size) Json.ofNat n :=
    survives_nat size_inWord hleast (Int.natCast_nonneg n) hfew
  exact ⟨h.written, fun _ => congrArg (Except.map some) h.reads⟩

/-- Whatever number of workers is put in place of the one that was read, the settings
survive. -/
theorem survives {doc : Json} {s : Settings} (hfits : schema.Fits doc)
    (hread : ofJson (.ofJson doc) = .ok s) : Staffs (room + 5) s.workerCount ∧
      ∀ workers, Staffs (room + 5) workers →
        Survives (room + 6) schema ofJson toJson { s with workerCount := workers } := by
  obtain ⟨given, rfl, hgiven⟩ := Schema.fits_record_iff.mp hfits
  obtain ⟨slot, hslot, hrecord⟩ := Except.bind_eq_ok.mp hread
  obtain rfl := Json.slots_eq_ok hslot
  simp only [Except.bind_eq_ok] at hrecord
  obtain ⟨database, hread₁, mapping, hread₂, rule, hread₃, flatten, hread₄, root, hread₅,
    version, hread₆, workers, hread₇, ⟨⟩⟩ := hrecord
  have hfits := hgiven.fits
  simp only [List.forall_mem_cons] at hfits
  obtain ⟨-, hdatabase, hmapping, hrule, hflatten, hroot, hversion, hworkers, -⟩ := hfits
  have h₁ := (keeps_text (room + 5) 1).leftOut (readOptional_eq_ok_some nofun)
    hdatabase hread₁
  have h₂ := (MappingSection.keeps room).withDefault (.object []) rfl rfl hmapping hread₂
  have h₃ := (MatchRule.keeps (room + 4)).withDefault (.object []) rfl rfl hrule hread₃
  have h₄ := (FlattenOptions.keeps (room + 4)).withDefault (.object []) rfl rfl hflatten hread₄
  have h₅ := (keeps_text (room + 5) 1).required hroot hread₅
  have h₆ := (keeps_constant (room + 5) knownVersion).required hversion hread₆
  have h₇ := (keeps_nat (room + 5) (some 1) size_inWord (by decide)).leftOut
    map_some_eq_ok_some hworkers hread₇
  -- the other fields do not depend on the number of workers
  refine ⟨h₇, fun workers h₇ => ?_⟩
  refine survives_record [("version", some (.string version)),
    ("databasePath", database.map .string), ("storageRoot", some (.string root)),
    ("workerCount", workers.map Json.ofNat), ("normalize", some flatten.toJson),
    ("matching", some rule.toJson), ("mapping", some mapping.toJson)] (by decide) ?_
    ⟨by simp, by simp, ?_, ?_⟩
  · cases database <;> cases workers <;> rfl
  · simp only [List.forall_mem_cons]
    exact ⟨⟨_, rfl, h₆.written⟩, ⟨_, rfl, h₁.written⟩, ⟨_, rfl, h₅.written⟩,
      ⟨_, rfl, h₇.written⟩, ⟨_, rfl, h₄.written⟩, ⟨_, rfl, h₃.written⟩, ⟨_, rfl, h₂.written⟩,
      nofun⟩
  · simp only [Except.bind_eq_ok]
    exact ⟨_, h₁.reads _, _, h₂.reads _, _, h₃.reads _, _, h₄.reads _, _, h₅.reads _, _,
      h₆.reads _, _, h₇.reads _, rfl⟩

/-- The settings on a machine with a number of processors, one worker for each if the
settings leave that open. -/
def staffed (s : Settings) (processors : Nat) : Settings :=
  { s with workerCount := some (s.workerCount.getD processors) }

theorem ofDocument_eq_ok_iff {doc : Json} {s : Settings} : ofDocument doc = .ok s ↔
    schema.Fits doc ∧ ofJson (.ofJson doc) = .ok s ∧ s.check = .ok () := by
  rw [ofDocument, Schema.Fits]
  cases Schema.check [] schema doc with
  | nil =>
    simp only [Except.bind_eq_ok, Except.mapError_eq_ok, Json.decode, true_and]
    constructor
    · rintro ⟨_, hread, _, hcheck, ⟨⟩⟩
      exact ⟨hread, hcheck⟩
    · rintro ⟨hread, hcheck⟩
      exact ⟨s, hread, (), hcheck, rfl⟩
  | cons e rest =>
    constructor
    · intro h
      cases h
    · rintro ⟨h, -⟩
      cases h

theorem load_eq_ok_iff {text : String} {s : Settings} : load text = .ok s ↔
    ∃ doc, Json.read text = .ok doc ∧ ofDocument doc.sorted = .ok s := by
  unfold load
  cases Json.read text with
  | error e => exact iff_of_false nofun fun ⟨_, h, _⟩ => nomatch h
  | ok doc => simp

/-- Settings that survive and are sound are loaded from their own text. -/
theorem Survives.load {s : Settings}
    (h : Survives Json.depthLimit schema ofJson toJson s) (hcheck : s.check = .ok ()) :
    load s.toJson.text = .ok s :=
  load_eq_ok_iff.mpr ⟨_, Json.read_text h.plain.sized h.plain.floatFree,
    ofDocument_eq_ok_iff.mpr ⟨h.fits, h.reads, hcheck⟩⟩

theorem check_eq_ok_iff {s : Settings} : s.check = .ok () ↔ s.version = knownVersion ∧
    s.workerCount ≠ some 0 ∧ s.flatten.separator.isEmpty = false ∧ s.mapping.check = .ok () := by
  unfold check
  split
  · rename_i hversion
    exact iff_of_false nofun fun h => hversion h.1
  · rename_i hversion
    rw [and_iff_right (not_not.mp hversion)]
    split
    · rename_i hworkers
      exact iff_of_false nofun fun h => h.1 hworkers
    · rename_i hworkers
      rw [and_iff_right hworkers]
      split
      · rename_i hseparator
        exact iff_of_false nofun fun h => Bool.false_ne_true (h.1.symm.trans hseparator)
      · rename_i hseparator
        rw [and_iff_right (Bool.eq_false_iff.mpr hseparator), Except.mapError_eq_ok]

theorem check_staffed {s : Settings} (h : s.check = .ok ()) {processors : Nat}
    (hsome : 1 ≤ processors) : (s.staffed processors).check = .ok () := by
  obtain ⟨hversion, hworkers, hseparator, hmapping⟩ := check_eq_ok_iff.mp h
  refine check_eq_ok_iff.mpr ⟨hversion, ?_, hseparator, hmapping⟩
  unfold staffed
  cases hcount : s.workerCount with
  | some count =>
    rw [hcount] at hworkers
    exact hworkers
  | none =>
    rintro ⟨⟩
    exact Nat.not_succ_le_zero 0 hsome

/-- Settings that were loaded are loaded again from the text that is written of them, and
they are the same settings, whether the number of workers is left open or is that of the
machine's processors. -/
theorem load_written {text : String} {s : Settings} (h : load text = .ok s) :
    load s.toJson.text = .ok s ∧
      ∀ processors : Nat, 1 ≤ processors → (processors : Int) ≤ WholeRange.size.greatest →
        load (s.staffed processors).toJson.text = .ok (s.staffed processors) := by
  obtain ⟨doc, -, hdocument⟩ := load_eq_ok_iff.mp h
  obtain ⟨hfits, hread, hcheck⟩ := ofDocument_eq_ok_iff.mp hdocument
  obtain ⟨hworkers, hsurvives⟩ := survives 121 hfits hread
  refine ⟨Survives.load (hsurvives _ hworkers) hcheck, fun processors hsome hfew => ?_⟩
  refine Survives.load (hsurvives _ ?_) (check_staffed hcheck hsome)
  cases hcount : s.workerCount with
  | some count =>
    rw [hcount] at hworkers
    exact hworkers
  | none => exact staffs_some _ hsome hfew

/-! Settings with a key that is repeated, a template whose scope is null, and a layer that
clears, sets and leaves alone. -/

private def layeredSettings : Json :=
  .object
    [("version", .string "1.0"), ("storageRoot", .string "left"),
      ("$schema", .string "config-v1"), ("storageRoot", .string "/var/\x22o\x22"),
      ("mapping", .object
        [("templates", .array [.object
            [("name", .string "ledger"), ("itemType", .string "multi_source"),
              ("companyId", .null), ("config", .object [("internalJoinKey", .string "key")])]]),
          ("defaults", .array [.object
            [("template", .string "ledger"), ("itemType", .string "single_source"),
              ("documentTypeId", .string "invoice"), ("companyId", .string "acme"),
              ("configOverride", .object
                [("masterCsvPath", .null), ("externalJoinKeys", .array []),
                  ("columnAliases", .object [("b", .string "\n"), ("a", .string "é")])])]])])]

private def layeredLoaded : Settings where
  version := "1.0"
  databasePath := none
  storageRoot := "/var/\x22o\x22"
  workerCount := none
  flatten := .standard
  rule := .tolerant
  mapping :=
    ⟨[⟨0, "ledger", .multiSource, none, none, 100, ⟨none, [], some "key", Dict.empty⟩⟩],
      [⟨"acme", "invoice", .singleSource, "ledger",
        some ⟨.clear, some [], .keep, some (.ofList [("a", "é"), ("b", "\n")])⟩⟩]⟩

/-- What the layer clears, sets and leaves alone is still told apart. -/
theorem load_written_layered : load layeredSettings.text = .ok layeredLoaded ∧
    load layeredLoaded.toJson.text = .ok layeredLoaded ∧
    load (layeredLoaded.staffed 8).toJson.text = .ok (layeredLoaded.staffed 8) := by
  have hsized : layeredSettings.Sized Json.depthLimit :=
    ⟨by decide +kernel, fun n => by simp (disch := decide) [layeredSettings]⟩
  have hfree : layeredSettings.FloatFree := fun x => by simp (disch := decide) [layeredSettings]
  have hfits : schema.Fits layeredSettings.sorted := List.isEmpty_iff.mp (by decide +kernel)
  have hload : load layeredSettings.text = .ok layeredLoaded :=
    load_eq_ok_iff.mpr ⟨_, Json.read_text hsized hfree, ofDocument_eq_ok_iff.mpr
      ⟨hfits, by decide +kernel, check_eq_ok_iff.mpr (by decide +kernel)⟩⟩
  obtain ⟨hagain, hstaffed⟩ := load_written hload
  exact ⟨hload, hagain, hstaffed 8 (by decide) (by decide)⟩

end Settings

end Collate
