import Collate.Proofs.Table.Extracted

/-!
Which documents need no recognition. Reading succeeds on text of a supported content
type and on nothing else. Comma-separated values cannot fail there, however their
quotation marks stand: fields are cut at octets that occur in no other character, so
the fields of a text are texts.
-/

namespace Collate.Extraction

variable {config : DocumentConfig} {content : Octets}

theorem isSupported_iff {contentType : Option String} : isSupported contentType = true ↔
    contentType = some ContentType.csv ∨ contentType = some ContentType.json ∨
      contentType = some ContentType.plain := by
  simp only [isSupported, Bool.or_eq_true, beq_iff_eq]
  tauto

/-- Text of comma-separated values is extracted as the rows of a table. -/
theorem passThrough_csv (hconfig : config.contentType = some ContentType.csv)
    (text : List Char) : ∃ t, Table.ofCsv (Text.Utf8.encode text) = .ok t ∧
      passThrough config (Text.Utf8.encode text) = .ok t.toRows.text := by
  refine ⟨Table.ofFields _, by rw [Table.ofCsv, Csv.readRecords_encode]; rfl, ?_⟩
  rw [passThrough, Text.Utf8.decode_encode]
  simp only [if_pos hconfig, Table.ofCsv, Csv.readRecords_encode, Except.map]

/-- What is extracted is text. -/
theorem exists_text_of_passThrough {payload : String}
    (h : passThrough config content = .ok payload) : ∃ text, content = Text.Utf8.encode text := by
  unfold passThrough at h
  split at h
  · cases h
  · rename_i text htext
    exact ⟨text, Text.Utf8.decode_eq_ok_iff.mp htext⟩

/-- What is extracted has a supported content type. -/
theorem isSupported_of_passThrough {payload : String}
    (h : passThrough config content = .ok payload) : isSupported config.contentType = true := by
  rw [isSupported_iff]
  unfold passThrough at h
  split at h
  · cases h
  · split at h
    · rename_i hcsv
      exact .inl hcsv
    · split at h
      · rename_i hother
        exact .inr hother
      · cases h

/-- Every text of a supported content type is extracted. -/
theorem exists_passThrough (hsupported : isSupported config.contentType = true)
    (text : List Char) : ∃ payload, passThrough config (Text.Utf8.encode text) = .ok payload := by
  by_cases hcsv : config.contentType = some ContentType.csv
  · obtain ⟨t, -, ht⟩ := passThrough_csv hcsv text
    exact ⟨t.toRows.text, ht⟩
  · have hother := (isSupported_iff.mp hsupported).resolve_left hcsv
    refine ⟨String.ofList text, ?_⟩
    rw [passThrough, Text.Utf8.decode_encode]
    simp only [if_neg hcsv, if_pos hother]

/-- A document is extracted exactly when it is text of a supported content type. Text is
always read as comma-separated values, and what is extracted of these is JSON: the rows
of the table that is read. -/
theorem passThrough_succeeds_iff (config : DocumentConfig) (content : Octets) :
    ((∃ payload, passThrough config content = .ok payload) ↔
      (∃ text, content = Text.Utf8.encode text) ∧ isSupported config.contentType = true) ∧
    (∀ text, ∃ t, Table.ofCsv (Text.Utf8.encode text) = .ok t) ∧
    ∀ payload, passThrough config content = .ok payload →
      config.contentType = some ContentType.csv →
        ∃ t, Table.ofCsv content = .ok t ∧ Json.read payload = .ok t.toRows := by
  refine ⟨⟨?_, ?_⟩, ?_, ?_⟩
  · rintro ⟨payload, h⟩
    exact ⟨exists_text_of_passThrough h, isSupported_of_passThrough h⟩
  · rintro ⟨⟨text, rfl⟩, hsupported⟩
    exact exists_passThrough hsupported text
  · intro text
    exact ⟨_, by rw [Table.ofCsv, Csv.readRecords_encode]; rfl⟩
  · intro payload h hcsv
    obtain ⟨text, rfl⟩ := exists_text_of_passThrough h
    obtain ⟨t, hread, ht⟩ := passThrough_csv hcsv text
    obtain rfl := Except.ok.inj (ht.symm.trans h)
    exact ⟨t, hread, Table.read_toRows t⟩

/-- Text after a closing quotation mark, and one that is never closed. -/
theorem passThrough_succeeds_iff_unclosed :
    let config : DocumentConfig := ⟨"acme", "invoice", .primary, some ContentType.csv⟩
    let content := Text.Utf8.ofText "id,name\n\"1\"\"\"x,\"né,\n"
    let payload := "[\x7b\"id\":\"1\\\"x\",\"name\":\"né,\\n\"\x7d]"
    passThrough config content = .ok payload ∧ isSupported config.contentType = true ∧
      ∃ t, Table.ofCsv content = .ok t ∧ Json.read payload = .ok t.toRows := by
  intro config content payload
  have h : passThrough config content = .ok payload := by decide +kernel
  obtain ⟨hiff, -, hjson⟩ := passThrough_succeeds_iff config content
  exact ⟨h, (hiff.mp ⟨payload, h⟩).2, hjson payload h rfl⟩

end Collate.Extraction
