import Collate.Csv.Reader
import Collate.Proofs.Csv.Written
import Collate.Proofs.Text.Utf8

/-!
Splitting the octets of a text is splitting the text. The special symbols are
single octets, and every octet of any other character is plain, so the splitter
of octets keeps step with the splitter of characters and its fields are the
octets of that one's fields. They can therefore always be read as text.
-/

namespace Collate.Csv

open Text (Utf8.encode)
open Text.Utf8

/-- The octets of a character that is not special are plain. -/
theorem markOfOctet_of_plain {c : Char} (h : markOfChar c = .plain) :
    ∀ b ∈ String.utf8EncodeChar c, markOfOctet b = .plain := by
  have hspecial : c.val.toNat ≠ 0x2C ∧ c.val.toNat ≠ 0x22 ∧ c.val.toNat ≠ 0x0D ∧
      c.val.toNat ≠ 0x0A := by
    have hc : Char.ofNat c.val.toNat = c := Char.ofNat_toNat c
    refine ⟨?_, ?_, ?_, ?_⟩ <;>
    · intro heq
      rw [heq] at hc
      rw [← hc] at h
      exact absurd h (by decide)
  have hplain : ∀ n, n < 256 → n ≠ 0x2C → n ≠ 0x22 → n ≠ 0x0D → n ≠ 0x0A →
      markOfOctet (UInt8.ofNat n) = .plain := by
    decide +kernel
  intro b hb
  unfold String.utf8EncodeChar at hb
  generalize c.val.toNat = n at hb hspecial
  simp only at hb
  split at hb
  · simp only [List.mem_singleton] at hb
    subst hb
    exact hplain n (by omega) hspecial.1 hspecial.2.1 hspecial.2.2.1 hspecial.2.2.2
  · -- all octets of a longer sequence are beyond the ASCII range
    have hhigh : ∃ m, 0x80 ≤ m ∧ m < 256 ∧ b = UInt8.ofNat m := by
      split at hb
      · simp only [List.mem_cons, List.not_mem_nil, or_false] at hb
        rcases hb with rfl | rfl
        · exact ⟨_, by omega, by omega, rfl⟩
        · exact ⟨_, by omega, by omega, rfl⟩
      · split at hb
        · simp only [List.mem_cons, List.not_mem_nil, or_false] at hb
          rcases hb with rfl | rfl | rfl
          · exact ⟨_, by omega, by omega, rfl⟩
          · exact ⟨_, by omega, by omega, rfl⟩
          · exact ⟨_, by omega, by omega, rfl⟩
        · simp only [List.mem_cons, List.not_mem_nil, or_false] at hb
          rcases hb with rfl | rfl | rfl | rfl
          · exact ⟨_, by omega, by omega, rfl⟩
          · exact ⟨_, by omega, by omega, rfl⟩
          · exact ⟨_, by omega, by omega, rfl⟩
          · exact ⟨_, by omega, by omega, rfl⟩
    obtain ⟨m, hlow, hbound, rfl⟩ := hhigh
    exact hplain m hbound (by omega) (by omega) (by omega) (by omega)

/-- A special character is one octet of the same meaning. -/
theorem octet_of_special {c : Char} (h : markOfChar c ≠ .plain) :
    ∃ b, String.utf8EncodeChar c = [b] ∧ markOfOctet b = markOfChar c := by
  have hc : c = ',' ∨ c = '"' ∨ c = '\r' ∨ c = '\n' := by
    unfold markOfChar at h
    grind
  rcases hc with rfl | rfl | rfl | rfl
  · exact ⟨0x2C, by decide, by decide⟩
  · exact ⟨0x22, by decide, by decide⟩
  · exact ⟨0x0D, by decide, by decide⟩
  · exact ⟨0x0A, by decide, by decide⟩

namespace Splitter

/-- A splitter of octets stands where a splitter of characters does, and holds
the octets of what that one holds. -/
def Encodes (s : Splitter Char) (t : Splitter UInt8) : Prop :=
  ∃ spot field fields records,
    s.Holds spot field fields records ∧
    t.Holds spot (encode field.reverse).reverse (fields.map encode)
      (records.map fun fields => fields.map encode)

theorem encode_reverse_cons (c : Char) (field : List Char) :
    (encode (c :: field).reverse).reverse =
      (String.utf8EncodeChar c).reverse ++ (encode field.reverse).reverse := by
  simp [encode_append, encode_cons]

/-- Octets that are no quotation marks are taken between quotation marks. -/
private theorem Holds.insides {t : Splitter UInt8} {octets field : List UInt8}
    {fields : List (List UInt8)} {records : List (List (List UInt8))}
    (h : t.Holds .quoted field fields records)
    (hplain : ∀ b ∈ octets, markOfOctet b ≠ .quote) :
    (octets.foldl (step markOfOctet) t).Holds .quoted (octets.reverse ++ field) fields records := by
  induction octets generalizing t field with
  | nil => simpa using h
  | cons b rest ih =>
    have hfirst := h.inside (hplain b (by simp))
    have hrest := ih hfirst fun other hother => hplain other (by simp [hother])
    simpa using hrest

private theorem Encodes.plain {s : Splitter Char} {t : Splitter UInt8} (h : Encodes s t) {c : Char}
    (hc : markOfChar c = .plain) :
    Encodes (s.step markOfChar c) ((String.utf8EncodeChar c).foldl (step markOfOctet) t) := by
  obtain ⟨spot, field, fields, records, hs, ht⟩ := h
  have hoctets := markOfOctet_of_plain hc
  by_cases hspot : spot = .quoted
  · subst hspot
    refine ⟨.quoted, c :: field, fields, records, hs.inside (by simp [hc]), ?_⟩
    rw [encode_reverse_cons]
    exact ht.insides fun b hb => by simp [hoctets b hb]
  · refine ⟨.field, c :: field, fields, records, hs.plain hspot hc, ?_⟩
    rw [encode_reverse_cons]
    exact ht.plains hspot String.utf8EncodeChar_ne_nil hoctets

/-- Between quotation marks a special octet other than the quotation mark is
taken like its character. -/
private theorem encodes_inside {s : Splitter Char} {t : Splitter UInt8} {field : List Char}
    {fields : List (List Char)} {records : List (List (List Char))} {c : Char} {b : UInt8}
    (hs : s.Holds .quoted field fields records)
    (ht : t.Holds .quoted (encode field.reverse).reverse (fields.map encode)
      (records.map fun fields => fields.map encode))
    (hb : String.utf8EncodeChar c = [b]) (hc : markOfChar c ≠ .quote)
    (hmark : markOfOctet b = markOfChar c) :
    Encodes (s.step markOfChar c) (t.step markOfOctet b) := by
  refine ⟨.quoted, c :: field, fields, records, hs.inside hc, ?_⟩
  rw [encode_reverse_cons, hb]
  exact ht.inside (by rw [hmark]; exact hc)

private theorem Encodes.comma {s : Splitter Char} {t : Splitter UInt8} (h : Encodes s t) {c : Char}
    {b : UInt8} (hb : String.utf8EncodeChar c = [b]) (hc : markOfChar c = .comma)
    (hmark : markOfOctet b = markOfChar c) :
    Encodes (s.step markOfChar c) (t.step markOfOctet b) := by
  obtain ⟨spot, field, fields, records, hs, ht⟩ := h
  by_cases hspot : spot = .quoted
  · subst hspot
    exact encodes_inside hs ht hb (by simp [hc]) hmark
  · refine ⟨.fieldStart, [], field.reverse :: fields, records, hs.comma hspot hc, ?_⟩
    simpa using ht.comma hspot (hmark.trans hc)

private theorem Encodes.lineEnd {s : Splitter Char} {t : Splitter UInt8} (h : Encodes s t)
    {c : Char} {b : UInt8} (hb : String.utf8EncodeChar c = [b])
    (hc : (markOfChar c).endsLine = true) (hmark : markOfOctet b = markOfChar c) :
    Encodes (s.step markOfChar c) (t.step markOfOctet b) := by
  obtain ⟨spot, field, fields, records, hs, ht⟩ := h
  have hb' : (markOfOctet b).endsLine = true := by rw [hmark]; exact hc
  by_cases hquoted : spot = .quoted
  · subst hquoted
    have hquote : markOfChar c ≠ .quote := by
      intro heq
      simp [heq, Mark.endsLine] at hc
    exact encodes_inside hs ht hb hquote hmark
  by_cases hbetween : spot = .between
  · subst hbetween
    exact ⟨.between, field, fields, records, hs.blankLine hc, ht.blankLine hb'⟩
  · refine ⟨.between, [], [], _, hs.lineEnd hquoted hbetween hc, ?_⟩
    simpa using ht.lineEnd hquoted hbetween hb'

private theorem Encodes.quote {s : Splitter Char} {t : Splitter UInt8} (h : Encodes s t) {c : Char}
    {b : UInt8} (hb : String.utf8EncodeChar c = [b]) (hc : markOfChar c = .quote)
    (hmark : markOfOctet b = markOfChar c) :
    Encodes (s.step markOfChar c) (t.step markOfOctet b) := by
  obtain ⟨spot, field, fields, records, hs, ht⟩ := h
  have hb' := hmark.trans hc
  have htaken : (encode (c :: field).reverse).reverse = b :: (encode field.reverse).reverse := by
    rw [encode_reverse_cons, hb]
    rfl
  cases spot with
  | between =>
    exact ⟨.quoted, field, fields, records, hs.opening (Or.inl rfl) hc, ht.opening (Or.inl rfl) hb'⟩
  | fieldStart =>
    exact ⟨.quoted, field, fields, records, hs.opening (Or.inr rfl) hc, ht.opening (Or.inr rfl) hb'⟩
  | field =>
    refine ⟨.field, c :: field, fields, records, hs.strayQuote hc, ?_⟩
    rw [htaken]
    exact ht.strayQuote hb'
  | quoted =>
    exact ⟨.quoteSeen, field, fields, records, hs.closing hc, ht.closing hb'⟩
  | quoteSeen =>
    refine ⟨.quoted, c :: field, fields, records, hs.doubled hc, ?_⟩
    rw [htaken]
    exact ht.doubled hb'

/-- The two splitters keep step from one character to the next. -/
theorem Encodes.step {s : Splitter Char} {t : Splitter UInt8} (h : Encodes s t) (c : Char) :
    Encodes (s.step markOfChar c)
      ((String.utf8EncodeChar c).foldl (Splitter.step markOfOctet) t) := by
  by_cases hplain : markOfChar c = .plain
  · exact h.plain hplain
  · obtain ⟨b, hb, hmark⟩ := octet_of_special hplain
    rw [hb, List.foldl_cons, List.foldl_nil]
    cases hc : markOfChar c with
    | plain => exact absurd hc hplain
    | comma => exact h.comma hb hc hmark
    | quote => exact h.quote hb hc hmark
    | carriageReturn => exact h.lineEnd hb (by simp [hc, Mark.endsLine]) hmark
    | lineFeed => exact h.lineEnd hb (by simp [hc, Mark.endsLine]) hmark

theorem Encodes.text {s : Splitter Char} {t : Splitter UInt8} (h : Encodes s t)
    (text : List Char) :
    Encodes (text.foldl (Splitter.step markOfChar) s)
      ((encode text).foldl (Splitter.step markOfOctet) t) := by
  induction text generalizing s t with
  | nil => exact h
  | cons c rest ih =>
    rw [encode_cons, List.foldl_append, List.foldl_cons]
    exact ih (h.step c)

/-- What two splitters in step give in the end has the same fields. -/
theorem Encodes.finish {s : Splitter Char} {t : Splitter UInt8} (h : Encodes s t) :
    t.finish.map (·.fields) = s.finish.map fun r => r.fields.map encode := by
  obtain ⟨spot, field, fields, records, hs, ht⟩ := h
  have hold : s.records.map (fun r => r.fields.map encode) =
      (s.records.map (·.fields)).map fun fields => fields.map encode := by simp
  unfold Splitter.finish
  rw [hs.spot_eq, ht.spot_eq]
  cases spot with
  | between =>
    simp only [List.map_reverse]
    rw [hold, hs.records_eq, ht.records_eq]
  | fieldStart | field | quoted | quoteSeen =>
    simp only [endRecord, List.map_reverse, List.map_cons]
    rw [hold, hs.records_eq, ht.records_eq, hs.field_eq, ht.field_eq, hs.fields_eq,
      ht.fields_eq]
    simp

end Splitter

/-- The fields of a text's octets are the octets of the text's fields. -/
theorem split_encode (offset offset' : Nat) (text : List Char) :
    (split markOfOctet offset (encode text)).map (·.fields) =
      (split markOfChar offset' text).map fun r => r.fields.map encode := by
  have hstart : Splitter.Encodes (Splitter.start offset') (Splitter.start offset) :=
    ⟨.between, [], [], [], ⟨rfl, rfl, rfl, rfl⟩, ⟨rfl, rfl, rfl, rfl⟩⟩
  exact (hstart.text text).finish

/-! Reading fields as text. -/

theorem decodeFields_encode (record : Nat) (place : Record UInt8) (field : Nat)
    (fields : List (List Char)) :
    decodeFields record place field (fields.map encode) = .ok (fields.map String.ofList) := by
  induction fields generalizing field with
  | nil => rfl
  | cons text rest ih =>
    simp [decodeFields, ih, Except.map]

theorem decodeRecords_encode {records : List (Record UInt8)} {texts : List (List (List Char))}
    (h : records.map (·.fields) = texts.map fun fields => fields.map encode) (record : Nat) :
    decodeRecords record records = .ok (texts.map fun fields => fields.map String.ofList) := by
  induction records generalizing texts record with
  | nil =>
    cases texts with
    | nil => rfl
    | cons _ _ => simp at h
  | cons r rest ih =>
    cases texts with
    | nil => simp at h
    | cons fields more =>
      simp only [List.map_cons, List.cons.injEq] at h
      rw [decodeRecords, h.1, decodeFields_encode, ih h.2]
      rfl

def afterMark : List Char → List Char
  | '\uFEFF' :: rest => rest
  | text => text

theorem afterMark_of_head {text : List Char} (h : text.head? ≠ some '\uFEFF') :
    afterMark text = text := by
  unfold afterMark
  split
  · simp at h
  · rfl

/-- The byte-order mark is told by its octets, which begin no other character. -/
theorem passMark_encode (text : List Char) :
    (passMark (encode text)).2 = encode (afterMark text) := by
  by_cases hmark : text.head? = some '\uFEFF'
  · obtain ⟨rest, rfl⟩ : ∃ rest, text = '\uFEFF' :: rest := by
      cases text with
      | nil => simp at hmark
      | cons c rest => exact ⟨rest, by simpa using hmark⟩
    have hoctets : String.utf8EncodeChar '\uFEFF' = [0xEF, 0xBB, 0xBF] := by decide
    rw [encode_cons, hoctets]
    rfl
  · rw [afterMark_of_head hmark]
    unfold passMark
    split
    · rename_i rest heq
      have hone : decodeOne 0xEF (0xBB :: 0xBF :: rest) = .ok ('\uFEFF', rest) := rfl
      obtain ⟨more, rfl, -⟩ := head_of_encode_eq heq hone
      simp at hmark
    · rfl

/-- The octets of a text are read without a fault, record by record as the text
is split. -/
theorem readRecords_encode (text : List Char) :
    readRecords (encode text) =
      .ok ((split markOfChar 0 (afterMark text)).map fun r => r.fields.map String.ofList) := by
  have hsplit : (splitOctets (encode text)).map (·.fields) =
      ((split markOfChar 0 (afterMark text)).map (·.fields)).map fun fields =>
        fields.map encode := by
    have hpassed : splitOctets (encode text) =
        split markOfOctet (passMark (encode text)).1 (passMark (encode text)).2 := rfl
    rw [hpassed, passMark_encode, split_encode _ 0]
    simp
  rw [readRecords, decodeRecords_encode hsplit]
  simp

end Collate.Csv
