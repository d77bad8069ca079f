import Collate.Json.Decode
import Collate.Proofs.Json.Written

/-!
What was written reads the same to the loose reader. The parts that the text of a
document is cut into are known from the document: a scalar is one leaf, a container
its marks with the parts of what it holds. The cutter is followed over the characters
of a text, the builder over the parts of a document, and neither looks at anything
that is further outside.
-/

namespace Collate

namespace Json

open Draft (Part)

mutual

def parts : Json → List Part
  | .array items => .mark '[' :: itemParts items ++ [.mark ']']
  | .object fields => .mark '{' :: fieldParts fields ++ [.mark '}']
  | scalar => [.leaf scalar.write]

def itemParts : List Json → List Part
  | [] => []
  | [item] => item.parts
  | item :: rest => item.parts ++ .mark ',' :: itemParts rest

def fieldParts : List (String × Json) → List Part
  | [] => []
  | [(key, value)] => .leaf (quote key) :: .mark ':' :: value.parts
  | (key, value) :: rest =>
    .leaf (quote key) :: .mark ':' :: (value.parts ++ .mark ',' :: fieldParts rest)

end

theorem parts_scalar {doc : Json} (h : doc.isScalar = true) : doc.parts = [.leaf doc.write] := by
  cases doc with
  | array _ => cases h
  | object _ => cases h
  | _ => rfl

end Json

namespace Draft

open Json (isSpace quote escape hexDigit)

/-! Cutting what was written. -/

namespace Cutter

variable {done text : List Char} {parts : List Part} {c : Char} {k : Cutter}

/-- Outside of strings these are the parts so far, a leaf under way among them. -/
inductive Has : Cutter → List Part → Prop where
  | gap (parts : List Part) : Has ⟨.gap, parts⟩ parts
  | bare (done : List Char) (parts : List Part) :
    Has ⟨.bare done, parts⟩ (.leaf done.reverse :: parts)

/-- A mark ends the leaf before it. -/
theorem Has.step_mark (h : k.Has parts) (hc : isMark c = true) :
    k.step c = ⟨.gap, .mark c :: parts⟩ := by
  have hspace : isSpace c = false := by
    simp only [isMark, Bool.or_eq_true, beq_iff_eq] at hc
    rcases hc with ((((rfl | rfl) | rfl) | rfl) | rfl) | rfl <;> rfl
  cases h with
  | gap => simp [step, enter, hspace, hc]
  | bare => simp [step, enter, hspace, hc]

theorem Has.finish (h : k.Has parts) : k.finish = parts.reverse := by
  cases h <;> rfl

/-- A character of a leaf without quotation marks. -/
def IsBare (c : Char) : Prop :=
  isSpace c = false ∧ isMark c = false ∧ c ≠ '"'

theorem feed_bare (h : ∀ c ∈ text, IsBare c) :
    text.foldl step ⟨.bare done, parts⟩ = ⟨.bare (text.reverse ++ done), parts⟩ := by
  induction text generalizing done with
  | nil => rfl
  | cons c rest ih =>
    obtain ⟨⟨hspace, hmark, hquote⟩, hrest⟩ := List.forall_mem_cons.mp h
    have hstep : step ⟨.bare done, parts⟩ c = ⟨.bare (c :: done), parts⟩ := by
      simp [step, hspace, hmark, hquote]
    rw [List.foldl_cons, hstep, ih hrest, List.reverse_cons, List.append_assoc,
      List.singleton_append]

/-- A word or a number is one leaf. -/
theorem has_bare (hne : text ≠ []) (h : ∀ c ∈ text, IsBare c) :
    Has (text.foldl step ⟨.gap, parts⟩) (.leaf text :: parts) := by
  obtain ⟨c, rest, rfl⟩ := List.exists_cons_of_ne_nil hne
  obtain ⟨⟨hspace, hmark, hquote⟩, hrest⟩ := List.forall_mem_cons.mp h
  have hstep : step ⟨.gap, parts⟩ c = ⟨.bare [c], parts⟩ := by
    simp [step, enter, hspace, hmark, hquote]
  have hdone := Has.bare (rest.reverse ++ [c]) parts
  rw [← List.reverse_cons, List.reverse_reverse] at hdone
  rw [List.foldl_cons, hstep, feed_bare hrest, ← List.reverse_cons]
  exact hdone

/-- A character of a string leaves the cutter inside of the string. -/
theorem feed_escape (c : Char) :
    (escape c).foldl step ⟨.quoted done false, parts⟩ =
      ⟨.quoted ((escape c).reverse ++ done) false, parts⟩ := by
  unfold escape
  split
  case h_8 hquote hslash _ _ _ _ _ =>
    split
    · have hhex : ∀ d < 16, ∀ done : List Char, step ⟨.quoted done false, parts⟩ (hexDigit d) =
          ⟨.quoted (hexDigit d :: done) false, parts⟩ := by
        intro d hd done
        have hplain : ∀ d < 16, hexDigit d ≠ '"' ∧ hexDigit d ≠ '\\' := by decide
        simp [step, hplain d hd]
      have hzero : ('0' : Char) = hexDigit 0 := rfl
      simp only [List.foldl_cons, List.foldl_nil, hzero]
      rw [show step ⟨.quoted done false, parts⟩ '\\' =
          ⟨.quoted ('\\' :: done) true, parts⟩ from rfl,
        show step ⟨.quoted ('\\' :: done) true, parts⟩ 'u' =
          ⟨.quoted ('u' :: '\\' :: done) false, parts⟩ from rfl,
        hhex 0 (by decide), hhex 0 (by decide), hhex (c.toNat / 16) (by omega),
        hhex (c.toNat % 16) (by omega)]
      rfl
    · have hquote : c ≠ '"' := hquote
      have hslash : c ≠ '\\' := hslash
      simp [step, hquote, hslash]
  all_goals rfl

theorem feed_characters (chars : List Char) :
    (chars.flatMap escape).foldl step ⟨.quoted done false, parts⟩ =
      ⟨.quoted ((chars.flatMap escape).reverse ++ done) false, parts⟩ := by
  induction chars generalizing done with
  | nil => rfl
  | cons c rest ih =>
    rw [List.flatMap_cons, List.foldl_append, feed_escape, ih, List.reverse_append,
      List.append_assoc]

/-- A string is one leaf. -/
theorem feed_quote (s : String) :
    (quote s).foldl step ⟨.gap, parts⟩ = ⟨.gap, .leaf (quote s) :: parts⟩ := by
  have hopen : step ⟨.gap, parts⟩ '"' = ⟨.quoted ['"'] false, parts⟩ := rfl
  have hclose : ∀ done, step ⟨.quoted done false, parts⟩ '"' =
      ⟨.gap, .leaf ('"' :: done).reverse :: parts⟩ := fun _ => rfl
  have hleaf : ('"' :: ((s.toList.flatMap escape).reverse ++ ['"'])).reverse = quote s := by
    simp [quote]
  rw [← hleaf, ← hclose, ← feed_characters, ← hopen]
  simp

theorem isBare_digits (n : Nat) : ∀ c ∈ Number.digitsOf n, IsBare c := by
  have hdigit : ∀ d < 10, isSpace (Nat.digitChar d) = false ∧ isMark (Nat.digitChar d) = false ∧
      Nat.digitChar d ≠ '"' := by decide
  induction n using Nat.strongRecOn with
  | ind n ih =>
    intro c hc
    rw [Number.digitsOf] at hc
    by_cases hlast : n < 10
    · rw [Nat.toDigits_of_lt_base hlast, List.mem_singleton] at hc
      exact hc ▸ hdigit n hlast
    · rw [Nat.toDigits_of_base_le (by decide) (by omega), List.mem_append,
        List.mem_singleton] at hc
      rcases hc with hc | rfl
      · exact ih (n / 10) (by omega) c hc
      · exact hdigit _ (Nat.mod_lt n (by decide))

theorem text_integer_ne_nil (n : Int) : (Number.integer n).text ≠ [] := by
  rw [Number.text]
  split
  · exact List.cons_ne_nil _ _
  · exact Nat.toDigits_ne_nil

theorem isBare_integer (n : Int) : ∀ c ∈ (Number.integer n).text, IsBare c := by
  intro c hc
  rw [Number.text] at hc
  split at hc
  · rcases List.mem_cons.mp hc with rfl | hc
    · exact ⟨rfl, rfl, by decide⟩
    · exact isBare_digits _ c hc
  · exact isBare_digits _ c hc

/-- A scalar is one leaf. -/
theorem has_scalar {doc : Json} (h : doc.isScalar = true) (hfree : doc.FloatFree) :
    Has (doc.write.foldl step ⟨.gap, parts⟩) (.leaf doc.write :: parts) := by
  have hword : ∀ word ∈ ["null", "true", "false"].map String.toList,
      word ≠ [] ∧ ∀ c ∈ word, isSpace c = false ∧ isMark c = false ∧ c ≠ '"' := by
    simp [isSpace, isMark]
  cases doc with
  | null => exact has_bare (hword _ (.head _)).1 (hword _ (.head _)).2
  | bool value =>
    cases value with
    | true => exact has_bare (hword _ (.tail _ (.head _))).1 (hword _ (.tail _ (.head _))).2
    | false =>
      exact has_bare (hword _ (.tail _ (.tail _ (.head _)))).1
        (hword _ (.tail _ (.tail _ (.head _)))).2
  | string s =>
    rw [Json.write, feed_quote]
    exact .gap _
  | number value =>
    cases value with
    | integer n => exact has_bare (text_integer_ne_nil n) (isBare_integer n)
    | real x => exact absurd (.self _) (hfree x)
  | array items => cases h
  | object fields => cases h

mutual

/-- The text of a document is cut into its parts. -/
theorem has_write : ∀ (doc : Json) (before : List Part), doc.FloatFree →
    Has (doc.write.foldl step ⟨.gap, before⟩) (doc.parts.reverse ++ before)
  | .null, _, hfree => has_scalar rfl hfree
  | .bool _, _, hfree => has_scalar rfl hfree
  | .number _, _, hfree => has_scalar rfl hfree
  | .string _, _, hfree => has_scalar rfl hfree
  | .array items, before, hfree => by
    have hitems := has_writeItems items (.mark '[' :: before) fun _ hitem => hfree.item hitem
    rw [Json.write, List.foldl_append, List.foldl_cons, List.foldl_nil, List.foldl_cons,
      (Has.gap before).step_mark rfl, hitems.step_mark rfl]
    simpa [Json.parts] using Has.gap _
  | .object fields, before, hfree => by
    have hfields := has_writeFields fields (.mark '{' :: before) fun _ hfield => hfree.field hfield
    rw [Json.write, List.foldl_append, List.foldl_cons, List.foldl_nil, List.foldl_cons,
      (Has.gap before).step_mark rfl, hfields.step_mark rfl]
    simpa [Json.parts] using Has.gap _

theorem has_writeItems : ∀ (items : List Json) (before : List Part),
    (∀ item ∈ items, item.FloatFree) →
    Has ((Json.writeItems items).foldl step ⟨.gap, before⟩)
      ((Json.itemParts items).reverse ++ before)
  | [], before, _ => .gap before
  | [item], before, hfree => has_write item before (hfree _ List.mem_cons_self)
  | item :: next :: more, before, hfree => by
    have hitem := has_write item before (hfree _ List.mem_cons_self)
    have hmore := has_writeItems (next :: more) (.mark ',' :: (item.parts.reverse ++ before))
      fun i hi => hfree i (List.mem_cons_of_mem _ hi)
    rw [Json.writeItems, List.foldl_append, List.foldl_cons, hitem.step_mark rfl]
    · simpa [Json.itemParts] using hmore
    · exact List.cons_ne_nil _ _

theorem has_writeFields : ∀ (fields : List (String × Json)) (before : List Part),
    (∀ field ∈ fields, field.2.FloatFree) →
    Has ((Json.writeFields fields).foldl step ⟨.gap, before⟩)
      ((Json.fieldParts fields).reverse ++ before)
  | [], before, _ => .gap before
  | [(key, value)], before, hfree => by
    have hvalue := has_write value (.mark ':' :: .leaf (quote key) :: before)
      (hfree _ List.mem_cons_self)
    rw [Json.writeFields, List.foldl_append, feed_quote, List.foldl_cons,
      (Has.gap _).step_mark rfl]
    simpa [Json.fieldParts] using hvalue
  | (key, value) :: next :: more, before, hfree => by
    have hvalue := has_write value (.mark ':' :: .leaf (quote key) :: before)
      (hfree _ List.mem_cons_self)
    have hmore := has_writeFields (next :: more)
      (.mark ',' :: (value.parts.reverse ++ .mark ':' :: .leaf (quote key) :: before))
      fun f hf => hfree f (List.mem_cons_of_mem _ hf)
    rw [Json.writeFields, List.append_assoc, List.foldl_append, feed_quote, List.cons_append,
      List.foldl_cons, (Has.gap _).step_mark rfl, List.foldl_append, List.foldl_cons,
      hvalue.step_mark rfl]
    · simpa [Json.fieldParts] using hmore
    · exact List.cons_ne_nil _ _

end

end Cutter

theorem cut_write {doc : Json} (hfree : doc.FloatFree) : cut doc.write = doc.parts := by
  have h := (Cutter.has_write doc [] hfree).finish
  rwa [List.append_nil, List.reverse_reverse] at h

/-! Reading leaves. -/

theorem closesString_escape (c : Char) (rest : List Char) :
    closesString (escape c ++ rest) = closesString rest := by
  unfold escape
  split
  case h_8 hquote hslash _ _ _ _ _ =>
    have hquote : c ≠ '"' := hquote
    have hslash : c ≠ '\\' := hslash
    split
    · have hhex : ∀ d < 16, (Json.hexValue? (hexDigit d)).isSome = true := by decide
      have hzero : (Json.hexValue? '0').isSome = true := rfl
      have hfirst := hhex (c.toNat / 16) (by omega)
      have hsecond := hhex (c.toNat % 16) (by omega)
      simp [closesString, hzero, hfirst, hsecond]
    · rename_i hplain
      have hplain : 0x20 ≤ c.toNat := by omega
      simp [closesString, hquote, hslash, hplain]
  all_goals rfl

theorem isString_quote (s : String) : isString (quote s) = true := by
  have hclose : ∀ chars : List Char, closesString (chars.flatMap escape ++ ['"']) = true := by
    intro chars
    induction chars with
    | nil => simp [closesString]
    | cons c rest ih => rw [List.flatMap_cons, List.append_assoc, closesString_escape, ih]
  rw [quote, List.cons_append, isString, hclose]

theorem keyOfLeaf?_quote (key : String) : keyOfLeaf? (quote key) = some (some key) := by
  have hread : Json.read (Json.text (.string key)) = .ok (.string key) :=
    Json.read_text (.of_scalar rfl nofun) fun x hx => nomatch (Json.within_scalar_iff rfl).mp hx
  rw [Json.text, Json.write] at hread
  rw [keyOfLeaf?, isString_quote, if_pos rfl, hread]

theorem ofLeaf?_write {doc : Json} (hsized : doc.Sized Json.depthLimit) (hfree : doc.FloatFree) :
    ofLeaf? doc.write = some (ofJson doc) := by
  have hread := Json.read_text hsized hfree
  rw [Json.text] at hread
  rw [ofLeaf?, hread]

/-! Putting the parts together. -/

namespace Builder

variable {stack : List Frame} {part : Part} {rest : List Part} {b next : Builder}

theorem run_cons (h : b.step part = some next) (rest : List Part) :
    b.run (part :: rest) = next.run rest := by
  simp only [run, h]

def Awaits (due : Due) : Prop :=
  due = .value ∨ due = .first

theorem step_leaf {due : Due} {written : List Char} {value : Draft} (h : Awaits due)
    (hleaf : ofLeaf? written = some value) :
    step ⟨stack, due⟩ (.leaf written) = some (give stack value) := by
  rcases h with rfl | rfl <;> simp [step, begin, hleaf]

theorem step_key {due : Due} (h : due = .key ∨ due = .firstKey) (key : String) :
    step ⟨stack, due⟩ (.leaf (quote key)) = some ⟨stack, .colon (some key)⟩ := by
  rcases h with rfl | rfl <;> simp [step, keyOfLeaf?_quote]

theorem step_colon {fields : List (Option String × Draft)} {key : Option String} :
    step ⟨.object fields :: stack, .colon key⟩ (.mark ':') =
      some ⟨.field fields key :: stack, .value⟩ := rfl

/-- A container that may be opened here is kept as it was read. -/
theorem close_of_lt (h : stack.length < Json.depthLimit) (container : Draft) :
    close stack container = give stack container := by
  rw [close, if_pos h]

/-- The fields of an open object, all keys of which were read. -/
def fieldsDone (fields : List (String × Json)) : List (Option String × Draft) :=
  fields.map fun field => (some field.1, ofJson field.2)

theorem ofItems_eq_map (items : List Json) : ofItems items = items.map ofJson := by
  induction items with
  | nil => rfl
  | cons item rest ih => rw [ofItems, ih, List.map_cons]

theorem objectOf_fieldsDone (fields : List (String × Json)) :
    objectOf (fieldsDone fields) = ofJson (.object fields) := by
  have hfields : ∀ whole : Option String × Draft → Option (String × Draft),
      (∀ key value, whole (some key, value) = some (key, value)) →
        (fieldsDone fields).mapM whole = some (ofFields fields) := by
    intro whole hwhole
    induction fields with
    | nil => rfl
    | cons field rest ih =>
      rw [fieldsDone] at ih
      simp [fieldsDone, List.mapM_cons, hwhole, ih, ofFields]
  rw [objectOf, hfields _ fun _ _ => rfl, ofJson]

/-- A closing bracket after an element completes the array. -/
theorem run_close_array (hroom : stack.length < Json.depthLimit) (done : List Json) (item : Json)
    (rest : List Part) :
    run (give (.array (done.map ofJson) :: stack) (ofJson item)) (.mark ']' :: rest) =
      run (give stack (ofJson (.array (done.reverse ++ [item])))) rest := by
  have hvalue : Draft.array (ofJson item :: done.map ofJson).reverse =
      ofJson (.array (done.reverse ++ [item])) := by
    simp [ofJson, ofItems_eq_map]
  rw [← hvalue, ← close_of_lt hroom]
  rfl

/-- A closing brace after a field completes the object. -/
theorem run_close_object (hroom : stack.length < Json.depthLimit) (done : List (String × Json))
    (key : String) (value : Json) (rest : List Part) :
    run (give (.field (fieldsDone done) (some key) :: stack) (ofJson value))
        (.mark '\x7d' :: rest) =
      run (give stack (ofJson (.object (done.reverse ++ [(key, value)])))) rest := by
  have hvalue : objectOf ((some key, ofJson value) :: fieldsDone done).reverse =
      ofJson (.object (done.reverse ++ [(key, value)])) := by
    rw [← objectOf_fieldsDone]
    simp [fieldsDone]
  rw [← hvalue, ← close_of_lt hroom]
  rfl

theorem run_scalar {doc : Json} {due : Due} (h : doc.isScalar = true)
    (hsized : doc.Sized Json.depthLimit) (hfree : doc.FloatFree) (hdue : Awaits due)
    (rest : List Part) :
    run ⟨stack, due⟩ (doc.parts ++ rest) = run (give stack (ofJson doc)) rest := by
  rw [Json.parts_scalar h]
  exact run_cons (step_leaf hdue (ofLeaf?_write hsized hfree)) rest

theorem step_open_array {due : Due} (h : Awaits due) :
    step ⟨stack, due⟩ (.mark '[') = some ⟨.array [] :: stack, .first⟩ := by
  rcases h with rfl | rfl <;> rfl

theorem step_open_object {due : Due} (h : Awaits due) :
    step ⟨stack, due⟩ (.mark '{') = some ⟨.object [] :: stack, .firstKey⟩ := by
  rcases h with rfl | rfl <;> rfl

mutual

/-- The parts of a value give that value to the innermost open container. -/
theorem run_parts : ∀ (doc : Json) (stack : List Frame) (room : Nat),
    stack.length + room = Json.depthLimit → doc.Sized room → doc.FloatFree →
    ∀ (due : Due) (rest : List Part), Awaits due →
      run ⟨stack, due⟩ (doc.parts ++ rest) = run (give stack (ofJson doc)) rest
  | .null, _, _, hroom, hsized, hfree, _, rest, hdue =>
    run_scalar rfl (hsized.mono (by omega)) hfree hdue rest
  | .bool _, _, _, hroom, hsized, hfree, _, rest, hdue =>
    run_scalar rfl (hsized.mono (by omega)) hfree hdue rest
  | .number _, _, _, hroom, hsized, hfree, _, rest, hdue =>
    run_scalar rfl (hsized.mono (by omega)) hfree hdue rest
  | .string _, _, _, hroom, hsized, hfree, _, rest, hdue =>
    run_scalar rfl (hsized.mono (by omega)) hfree hdue rest
  | .array _, _, 0, _, hsized, _, _, _, _ => absurd hsized.depth (by simp [Json.depth])
  | .object _, _, 0, _, hsized, _, _, _, _ => absurd hsized.depth (by simp [Json.depth])
  | .array [], stack, room + 1, hroom, _, _, due, rest, hdue => by
    rw [Json.parts, List.cons_append, List.cons_append, run_cons (step_open_array hdue)]
    have hclose : step ⟨.array [] :: stack, .first⟩ (.mark ']') =
        some (close stack (.array [])) := rfl
    refine (run_cons hclose rest).trans ?_
    rw [close_of_lt (by omega)]
    rfl
  | .array (item :: items), stack, room + 1, hroom, hsized, hfree, due, rest, hdue => by
    have hitems := run_itemParts (item :: items) stack [] room hroom
      (Json.sized_array_iff.mp hsized) (fun _ hitem => hfree.item hitem) (List.cons_ne_nil _ _)
      .first rest (.inr rfl)
    rw [Json.parts, List.append_assoc, List.cons_append, List.singleton_append,
      run_cons (step_open_array hdue)]
    exact hitems
  | .object [], stack, room + 1, hroom, _, _, due, rest, hdue => by
    rw [Json.parts, List.cons_append, List.cons_append, run_cons (step_open_object hdue)]
    have hclose : step ⟨.object [] :: stack, .firstKey⟩ (.mark '\x7d') =
        some (close stack (objectOf [])) := rfl
    refine (run_cons hclose rest).trans ?_
    rw [close_of_lt (by omega)]
    rfl
  | .object (field :: fields), stack, room + 1, hroom, hsized, hfree, due, rest, hdue => by
    have hfields := run_fieldParts (field :: fields) stack [] room hroom
      (Json.sized_object_iff.mp hsized) (fun _ hfield => hfree.field hfield)
      (List.cons_ne_nil _ _) .firstKey rest (.inr rfl)
    rw [Json.parts, List.append_assoc, List.cons_append, List.singleton_append,
      run_cons (step_open_object hdue)]
    exact hfields

/-- The elements still to come join those of the innermost array. -/
theorem run_itemParts : ∀ (items : List Json) (stack : List Frame) (done : List Json)
    (room : Nat), stack.length + (room + 1) = Json.depthLimit →
    (∀ item ∈ items, item.Sized room) → (∀ item ∈ items, item.FloatFree) → items ≠ [] →
    ∀ (due : Due) (rest : List Part), Awaits due →
      run ⟨.array (done.map ofJson) :: stack, due⟩ (Json.itemParts items ++ .mark ']' :: rest) =
        run (give stack (ofJson (.array (done.reverse ++ items)))) rest
  | [], _, _, _, _, _, _, hne, _, _, _ => absurd rfl hne
  | [item], stack, done, room, hroom, hsized, hfree, _, due, rest, hdue => by
    rw [Json.itemParts, run_parts item (.array (done.map ofJson) :: stack) room
      (by rw [List.length_cons]; omega) (hsized _ List.mem_cons_self)
      (hfree _ List.mem_cons_self) due _ hdue, run_close_array (by omega)]
  | item :: next :: more, stack, done, room, hroom, hsized, hfree, _, due, rest, hdue => by
    have hmore := run_itemParts (next :: more) stack (item :: done) room hroom
      (fun i hi => hsized i (List.mem_cons_of_mem _ hi))
      (fun i hi => hfree i (List.mem_cons_of_mem _ hi)) (List.cons_ne_nil _ _)
      .value rest (.inl rfl)
    rw [List.reverse_cons, List.append_assoc, List.singleton_append] at hmore
    rw [Json.itemParts, List.append_assoc, List.cons_append,
      run_parts item (.array (done.map ofJson) :: stack) room
        (by rw [List.length_cons]; omega) (hsized _ List.mem_cons_self)
        (hfree _ List.mem_cons_self) due _ hdue, run_cons rfl]
    · exact hmore
    · exact List.cons_ne_nil _ _

/-- The fields still to come join those of the innermost object. -/
theorem run_fieldParts : ∀ (fields : List (String × Json)) (stack : List Frame)
    (done : List (String × Json)) (room : Nat), stack.length + (room + 1) = Json.depthLimit →
    (∀ field ∈ fields, field.2.Sized room) → (∀ field ∈ fields, field.2.FloatFree) →
    fields ≠ [] → ∀ (due : Due) (rest : List Part), due = .key ∨ due = .firstKey →
      run ⟨.object (fieldsDone done) :: stack, due⟩
          (Json.fieldParts fields ++ .mark '\x7d' :: rest) =
        run (give stack (ofJson (.object (done.reverse ++ fields)))) rest
  | [], _, _, _, _, _, _, hne, _, _, _ => absurd rfl hne
  | [(key, value)], stack, done, room, hroom, hsized, hfree, _, due, rest, hdue => by
    rw [Json.fieldParts, List.cons_append, List.cons_append, run_cons (step_key hdue key),
      run_cons step_colon,
      run_parts value _ room (by rw [List.length_cons]; omega) (hsized _ List.mem_cons_self)
        (hfree _ List.mem_cons_self) .value _ (.inl rfl), run_close_object (by omega)]
  | (key, value) :: next :: more, stack, done, room, hroom, hsized, hfree, _, due, rest, hdue => by
    have hmore := run_fieldParts (next :: more) stack ((key, value) :: done) room hroom
      (fun f hf => hsized f (List.mem_cons_of_mem _ hf))
      (fun f hf => hfree f (List.mem_cons_of_mem _ hf)) (List.cons_ne_nil _ _)
      .key rest (.inl rfl)
    rw [List.reverse_cons, List.append_assoc, List.singleton_append] at hmore
    rw [Json.fieldParts, List.cons_append, List.cons_append, List.append_assoc, List.cons_append,
      run_cons (step_key hdue key),
      run_cons step_colon,
      run_parts value _ room (by rw [List.length_cons]; omega) (hsized _ List.mem_cons_self)
        (hfree _ List.mem_cons_self) .value _ (.inl rfl), run_cons rfl]
    · exact hmore
    · exact List.cons_ne_nil _ _

end

end Builder

/-- What was written reads loosely as the document itself. -/
theorem read?_text {doc : Json} (hsized : doc.Sized Json.depthLimit) (hfree : doc.FloatFree) :
    read? doc.text = some (ofJson doc) := by
  have hrun := Builder.run_parts doc [] Json.depthLimit (Nat.zero_add _) hsized hfree .value []
    (.inl rfl)
  rw [List.append_nil] at hrun
  rw [read?, Json.text, String.toList_ofList, cut_write hfree, hrun]
  rfl

end Draft

namespace Json

/-- A value is read out of the text of a document as out of the document. -/
theorem decodeText_text {α : Type} (read : Read α) {doc : Json} (hsized : doc.Sized depthLimit)
    (hfree : doc.FloatFree) :
    decodeText read doc.text = (decode read doc).mapError .mismatch := by
  rw [decodeText, Draft.read?_text hsized hfree, decode]

end Json

end Collate
