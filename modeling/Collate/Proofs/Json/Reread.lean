import Collate.Proofs.Json.Bounds
import Collate.Proofs.Json.Written

/-!
Payloads survive being written and read again. What is asked of a document is
what every payload read has by itself: keys that occur once, few containers
inside one another and whole numbers of 64 bits. Only doubles are left out.
-/

namespace Collate

open Json (FloatFree)

/-- A document whose keys occur once, without doubles, with whole numbers of 64
bits and not too deep, is read from its own text. So is every payload without
doubles, also one with repeated keys, of which each keeps its first place and its
last value. -/
theorem readPayload_written :
    (∀ doc : Json, doc.DistinctKeys → doc.FloatFree → doc.WordSized →
      doc.depth ≤ Json.depthLimit → readPayload doc.text = .ok doc) ∧
    (∀ (payload : String) (doc : Json), readPayload payload = .ok doc → doc.FloatFree →
      readPayload doc.text = .ok doc) ∧
    (∀ (payload : String) (raw : Json), Text.isBlankText payload = false →
      Json.read payload = .ok raw → readPayload payload = .ok raw.unify) ∧
    ∀ fields : List (String × Json), ∃ kept, Json.unify (.object fields) = .object kept ∧
      kept.map (·.1) = (fields.map (·.1)).eraseDups ∧
      ∀ key, Json.field? key kept = (Json.field? key fields).map Json.unify := by
  have hagain : ∀ doc : Json, doc.DistinctKeys → doc.FloatFree → doc.Sized Json.depthLimit →
      readPayload doc.text = .ok doc := by
    intro doc hkeys hfree hsized
    rw [readPayload_text hsized hfree, hkeys.unify]
  refine ⟨?_, ?_, ?_, Json.unify_object⟩
  · exact fun doc hkeys hfree hwords hdepth => hagain doc hkeys hfree ⟨hdepth, hwords⟩
  · exact fun payload doc hread hfree =>
      hagain doc (readPayload_distinctKeys hread) hfree (readPayload_sized hread)
  · intro payload raw hblank hread
    rw [readPayload, hblank, if_neg Bool.false_ne_true, hread]

/-- A payload with a repeated key, the greatest and the least whole number, a
control character and a character beyond the first plane. -/
theorem readPayload_written_repeated :
    let raw := Json.object [("a", .number (.integer 18446744073709551615)),
      ("b\x01", .array [.number (.integer (-9223372036854775808)), .array [], .null]),
      ("a", .object [("\x22\\", .string "\n😀")])]
    let doc := Json.object [("a", .object [("\x22\\", .string "\n😀")]),
      ("b\x01", .array [.number (.integer (-9223372036854775808)), .array [], .null])]
    readPayload raw.text = .ok doc ∧ doc.DistinctKeys ∧ doc.FloatFree ∧ doc.WordSized ∧
      doc.depth ≤ Json.depthLimit ∧ readPayload doc.text = .ok doc := by
  intro raw doc
  have hsized : raw.Sized Json.depthLimit := by
    refine ⟨by decide +kernel, fun n hn => ?_⟩
    simp (disch := decide) [raw] at hn
    rcases hn with rfl | rfl <;> decide
  have hfree : raw.FloatFree := fun x => by simp (disch := decide) [raw]
  have hdoc : doc.FloatFree := fun x => by simp (disch := decide) [doc]
  have hread : readPayload raw.text = .ok doc := readPayload_text hsized hfree
  have hkeys := readPayload_distinctKeys hread
  obtain ⟨hdepth, hwords⟩ := readPayload_sized hread
  exact ⟨hread, hkeys, hdoc, hwords, hdepth,
    readPayload_written.1 doc hkeys hdoc hwords hdepth⟩

end Collate
