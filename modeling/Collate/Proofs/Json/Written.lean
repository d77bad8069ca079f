import Collate.Payload
import Collate.Proofs.Json.Unify

/-!
The reader gives back what was written. It is followed from mode to mode over the
characters of a document, wherever they stand in the text: strings escape by
escape, numbers digit by digit up to the character that ends them, and containers
by induction over their parts, each part adding one value to the innermost open
container. Places do not matter for what is read.
-/

namespace Collate

namespace Json

open Number (Ends Literal)

variable {stack : List Frame} {mode : Mode} {p : Position} {rest : List Char}

/-! Single steps. -/

theorem run_cons {s next : State} {c : Char} (h : s.step c = .ok next) (rest : List Char) :
    s.run (c :: rest) = next.run rest := by
  simp only [State.run, h]

/-- The mode before a value does not matter once the value is given. -/
theorem give_mode (mode other : Mode) (value : Json) :
    State.give ⟨stack, mode, p⟩ value = State.give ⟨stack, other, p⟩ value := by
  rcases stack with _ | ⟨_ | _ | _, _⟩ <;> rfl

def Awaits (mode : Mode) : Prop :=
  mode = .value ∨ mode = .arrayOpen ∨ mode = .arrayNext

/-- Where a value may begin, a character that is neither blank nor a closing
bracket begins one. -/
theorem step_awaits {c : Char} (h : Awaits mode) (hspace : isSpace c = false)
    (hclose : c ≠ ']') :
    State.step ⟨stack, mode, p⟩ c = State.begin ⟨stack, mode, p⟩ c := by
  have hbeq : (c == ']') = false := by simpa using hclose
  rcases h with rfl | rfl | rfl
  · simp only [State.step, hspace, Bool.false_eq_true, if_false]
  · simp only [State.step, hspace, hbeq, Bool.false_eq_true, if_false]
  · simp only [State.step, hspace, hbeq, Bool.false_eq_true, if_false]

/-- After a value the reader goes on with what ends it. -/
theorem step_give (value : Json) (c : Char) :
    State.step (State.give ⟨stack, mode, p⟩ value) c =
      State.after (State.give ⟨stack, mode, p⟩ value) c := by
  rcases stack with _ | ⟨_ | _ | _, _⟩ <;> rfl

/-! Strings. -/

section Strings

variable (stack)

theorem hexValue?_hexDigit {d : Nat} (hd : d < 16) : hexValue? (hexDigit d) = some d := by
  have hall : ∀ d < 16, hexValue? (hexDigit d) = some d := by decide
  exact hall d hd

theorem utf8Size_hexDigit {d : Nat} (hd : d < 16) : (hexDigit d).utf8Size = 1 := by
  have hall : ∀ d < 16, (hexDigit d).utf8Size = 1 := by decide
  exact hall d hd

/-- A digit of a code unit that is not the last one. -/
theorem step_unit (p : Position) (isKey : Bool) (done : List Char) (missing code : Nat) {d : Nat}
    (hd : d < 16) : ∃ p', State.step
        ⟨stack, .string isKey done (.unit (missing + 2) (some code) none), p⟩ (hexDigit d) =
      .ok ⟨stack, .string isKey done (.unit (missing + 1) (some (code * 16 + d)) none), p'⟩ := by
  have htaken : min (missing + 2) (hexDigit d).utf8Size = 1 := by
    rw [utf8Size_hexDigit hd]
    omega
  refine ⟨p.advance (hexDigit d) 1, ?_⟩
  simp [State.step, State.stepString, State.stepUnit, htaken, hexValue?_hexDigit hd]

/-- The last digit of the code unit of a control character. -/
theorem step_unit_last (p : Position) (isKey : Bool) (done : List Char) {code d : Nat}
    (hd : d < 16) (hcontrol : code * 16 + d < 0x20) :
    ∃ p', State.step ⟨stack, .string isKey done (.unit 1 (some code) none), p⟩ (hexDigit d) =
      .ok ⟨stack, .string isKey (Char.ofNat (code * 16 + d) :: done) .plain, p'⟩ := by
  have hmeans : unitMeaning none (code * 16 + d) = .char (Char.ofNat (code * 16 + d)) := by
    have hlow : ¬ 0xDC00 ≤ code * 16 + d := by omega
    have hhigh : ¬ 0xD800 ≤ code * 16 + d := by omega
    simp [unitMeaning, hlow, hhigh]
  refine ⟨p.advance (hexDigit d) 1, ?_⟩
  simp [State.step, State.stepString, State.stepUnit, utf8Size_hexDigit hd, hexValue?_hexDigit hd,
    hmeans]

/-- A control character is written as a code unit and read back from it. -/
theorem run_control {isKey : Bool} {done : List Char} {c : Char} (hcontrol : c.toNat < 0x20)
    (p : Position) (rest : List Char) : ∃ p',
    State.run ⟨stack, .string isKey done .plain, p⟩
        ('\\' :: 'u' :: '0' :: '0' :: hexDigit (c.toNat / 16) :: hexDigit (c.toNat % 16) :: rest) =
      State.run ⟨stack, .string isKey (c :: done) .plain, p'⟩ rest := by
  have hzero : ('0' : Char) = hexDigit 0 := rfl
  have hback : Char.ofNat (c.toNat / 16 * 16 + c.toNat % 16) = c := by
    rw [show c.toNat / 16 * 16 + c.toNat % 16 = c.toNat by omega, Char.ofNat_toNat]
  rw [hzero, run_cons rfl, run_cons rfl]
  obtain ⟨p₁, h₁⟩ := step_unit stack ((p.pass '\\').pass 'u') isKey done 2 0 (d := 0) (by decide)
  obtain ⟨p₂, h₂⟩ := step_unit stack p₁ isKey done 1 0 (d := 0) (by decide)
  obtain ⟨p₃, h₃⟩ := step_unit stack p₂ isKey done 0 0 (d := c.toNat / 16) (by omega)
  obtain ⟨p₄, h₄⟩ := step_unit_last stack p₃ isKey done (Nat.mod_lt c.toNat (by decide))
    (by omega : c.toNat / 16 * 16 + c.toNat % 16 < 0x20)
  rw [hback] at h₄
  simp only [Nat.zero_mul, Nat.zero_add] at h₃
  exact ⟨p₄, (run_cons h₁ _).trans ((run_cons h₂ _).trans ((run_cons h₃ _).trans (run_cons h₄ _)))⟩

/-- The characters of a string are read as they were written. -/
theorem run_escape (isKey : Bool) (done : List Char) (c : Char) (p : Position)
    (rest : List Char) : ∃ p',
    State.run ⟨stack, .string isKey done .plain, p⟩ (escape c ++ rest) =
      State.run ⟨stack, .string isKey (c :: done) .plain, p'⟩ rest := by
  unfold escape
  split
  case h_8 hquote hslash hb hf hn hr ht =>
    split
    · rename_i hcontrol
      exact run_control stack hcontrol p rest
    · rename_i hplain
      refine ⟨p.pass c, run_cons ?_ rest⟩
      have hquote : (c == '"') = false := by simpa using hquote
      have hslash : (c == '\\') = false := by simpa using hslash
      simp only [State.step, State.stepString, hquote, hslash, hplain, Bool.false_eq_true,
        if_false, State.into]
  all_goals
    exact ⟨_, (run_cons rfl _).trans (run_cons rfl rest)⟩

theorem run_characters (isKey : Bool) (chars done : List Char) (p : Position)
    (rest : List Char) : ∃ p',
    State.run ⟨stack, .string isKey done .plain, p⟩ (chars.flatMap escape ++ rest) =
      State.run ⟨stack, .string isKey (chars.reverse ++ done) .plain, p'⟩ rest := by
  induction chars generalizing done p with
  | nil => exact ⟨p, rfl⟩
  | cons c more ih =>
    obtain ⟨p₁, h₁⟩ := run_escape stack isKey done c p (more.flatMap escape ++ rest)
    obtain ⟨p₂, h₂⟩ := ih (c :: done) p₁
    refine ⟨p₂, ?_⟩
    rw [List.flatMap_cons, List.append_assoc, h₁, h₂, List.reverse_cons, List.append_assoc,
      List.singleton_append]

/-- After its opening quotation mark a text is read to the end. -/
theorem run_quoted (isKey : Bool) (text : String) (p : Position) (rest : List Char) : ∃ p',
    State.run ⟨stack, .string isKey [] .plain, p⟩ (text.toList.flatMap escape ++ '"' :: rest) =
      State.run (State.endString ⟨stack, .string isKey [] .plain, p'⟩ isKey text.toList.reverse)
        rest := by
  obtain ⟨p₁, h₁⟩ := run_characters stack isKey text.toList [] p ('"' :: rest)
  refine ⟨p₁.pass '"', ?_⟩
  rw [h₁, run_cons rfl, List.append_nil]
  cases isKey
  · simp only [State.endString, Bool.false_eq_true, if_false]
    rw [give_mode]
  · rfl

theorem quote_append (text : String) (rest : List Char) :
    quote text ++ rest = '"' :: (text.toList.flatMap escape ++ '"' :: rest) := by
  simp [quote]

theorem run_string (h : Awaits mode) (text : String) (p : Position) (rest : List Char) : ∃ p',
    State.run ⟨stack, mode, p⟩ (quote text ++ rest) =
      State.run (State.give ⟨stack, .value, p'⟩ (.string text)) rest := by
  obtain ⟨p', hp'⟩ := run_quoted stack false text (p.pass '"') rest
  refine ⟨p', ?_⟩
  rw [quote_append, run_cons (step_awaits h rfl (by decide)), State.into, hp', State.endString,
    List.reverse_reverse, String.ofList_toList, if_neg Bool.false_ne_true, give_mode]

theorem run_key (h : mode = .objectOpen ∨ mode = .objectNext) (key : String) (p : Position)
    (rest : List Char) : ∃ p',
    State.run ⟨stack, mode, p⟩ (quote key ++ rest) = State.run ⟨stack, .colon key, p'⟩ rest := by
  obtain ⟨p', hp'⟩ := run_quoted stack true key (p.pass '"') rest
  have hopen : State.step ⟨stack, mode, p⟩ '"' =
      .ok ⟨stack, .string true [] .plain, p.pass '"'⟩ := by
    rcases h with rfl | rfl
    · rfl
    · rfl
  refine ⟨p', ?_⟩
  rw [quote_append, run_cons hopen, hp', State.endString, List.reverse_reverse,
    String.ofList_toList, if_pos rfl]

end Strings

/-! Words and numbers. -/

section Scalars

variable (stack)

/-- The letters of a word are read one by one, and the last one completes it. -/
theorem run_letters (c : Char) (letters : List Char) (value : Json) (p : Position)
    (rest : List Char) : ∃ p',
    State.run ⟨stack, .word (c :: letters) value, p⟩ (c :: letters ++ rest) =
      State.run (State.give ⟨stack, .value, p'⟩ value) rest := by
  induction letters generalizing c p with
  | nil =>
    have hstep : State.step ⟨stack, .word [c] value, p⟩ c =
        .ok (State.give ⟨stack, .value, p.pass c⟩ value) := by
      simp [State.step, give_mode (.word [c] value) .value]
    exact ⟨p.pass c, run_cons hstep rest⟩
  | cons next more ih =>
    have hstep : State.step ⟨stack, .word (c :: next :: more) value, p⟩ c =
        .ok ⟨stack, .word (next :: more) value, p.pass c⟩ := by
      simp [State.step, State.into]
    obtain ⟨p', hp'⟩ := ih next (p.pass c)
    exact ⟨p', (run_cons hstep _).trans hp'⟩

/-- A word is known by its first letter. -/
theorem run_word {first second : Char} {letters : List Char} {value : Json} (h : Awaits mode)
    (hbegin : ∀ s : State, s.begin first = .ok (s.into first (.word (second :: letters) value)))
    (hspace : isSpace first = false) (hclose : first ≠ ']') (p : Position) (rest : List Char) :
    ∃ p', State.run ⟨stack, mode, p⟩ (first :: second :: letters ++ rest) =
      State.run (State.give ⟨stack, .value, p'⟩ value) rest := by
  obtain ⟨p', hp'⟩ := run_letters stack second letters value (p.pass first) rest
  exact ⟨p', (run_cons ((step_awaits h hspace hclose).trans (hbegin _)) _).trans hp'⟩

/-- A literal takes its characters in one place of the text as in any other. -/
theorem run_takes {l last : Literal} {chars : List Char} (h : l.Takes chars last) (p : Position)
    (rest : List Char) : ∃ p', State.run ⟨stack, .number l, p⟩ (chars ++ rest) =
      State.run ⟨stack, .number last, p'⟩ rest := by
  induction h generalizing p with
  | nil => exact ⟨p, rfl⟩
  | @cons l next last c more hfeed _ ih =>
    have hstep : State.step ⟨stack, .number l, p⟩ c = .ok ⟨stack, .number next, p.pass c⟩ := by
      simp only [State.step, State.stepNumber, hfeed, State.into]
    obtain ⟨p', hp'⟩ := ih (p.pass c)
    exact ⟨p', (run_cons hstep _).trans hp'⟩

/-- A number is left at a character that may come after a value. -/
theorem run_stands {l : Literal} {n : Number} {c : Char} (h : l.Stands n) (hc : Ends c)
    (p : Position) (rest : List Char) :
    State.run ⟨stack, .number l, p⟩ (c :: rest) =
      State.run (State.give ⟨stack, .value, p⟩ (.number n)) (c :: rest) := by
  have hstep : State.step ⟨stack, .number l, p⟩ c =
      State.step (State.give ⟨stack, .value, p⟩ (.number n)) c := by
    rw [step_give]
    simp only [State.step, State.stepNumber, h.ends c hc, h.value, give_mode (.number l) .value]
  simp only [State.run, hstep]

/-- The character that opens a literal opens no other value. -/
theorem begin_literal {l : Literal} {c : Char} (h : Literal.start? c = some l) :
    isSpace c = false ∧ c ≠ ']' ∧ ∀ s : State, s.begin c = .ok (s.into c (.number l)) := by
  have hnone : ∀ other ∈ [' ', '\t', '\n', '\r', ']', '"', '[', '{', 't', 'f', 'n'], c ≠ other := by
    rintro other hother rfl
    have hstart : [' ', '\t', '\n', '\r', ']', '"', '[', '{', 't', 'f', 'n'].all
        (fun other => (Literal.start? other).isNone) = true := by decide
    have hno := List.all_eq_true.mp hstart c hother
    rw [h] at hno
    cases hno
  refine ⟨?_, hnone ']' (by decide), fun s => ?_⟩
  · simp [isSpace, hnone]
  · unfold State.begin
    split
    case h_7 => simp only [h]
    all_goals exact absurd rfl (hnone _ (by decide))

/-- Whole numbers that 64 bits hold are read back before a character that may
come after a value. -/
theorem run_integer (h : Awaits mode) {n : Int} (hn : Number.IsWord n) {c : Char} (hc : Ends c)
    (p : Position) (rest : List Char) : ∃ p',
    State.run ⟨stack, mode, p⟩ ((Number.integer n).text ++ c :: rest) =
      State.run (State.give ⟨stack, .value, p'⟩ (.number (.integer n))) (c :: rest) := by
  obtain ⟨first, more, l, last, htext, hstart, htakes, hstands⟩ := Number.text_integer hn
  obtain ⟨hspace, hclose, hbegin⟩ := begin_literal hstart
  obtain ⟨p', hp'⟩ := run_takes stack htakes (p.pass first) (c :: rest)
  refine ⟨p', ?_⟩
  rw [htext, List.cons_append, run_cons ((step_awaits h hspace hclose).trans (hbegin _)),
    State.into, hp', run_stands stack hstands hc]

end Scalars

/-! Documents. -/

/-- What follows a value leaves it as it is: the digits of a number have to be
ended. -/
def Follows (doc : Json) (rest : List Char) : Prop :=
  ∀ n, doc = .number n → ∃ c more, rest = c :: more ∧ Ends c

theorem follows_of_ends {doc : Json} {c : Char} {more : List Char} (h : Ends c) :
    Follows doc (c :: more) :=
  fun _ _ => ⟨c, more, rfl, h⟩

/-- Opening a container that may still be opened. -/
theorem step_open_array (h : Awaits mode) (hroom : stack.length < depthLimit) :
    State.step ⟨stack, mode, p⟩ '[' = .ok ⟨.array [] :: stack, .arrayOpen, p.pass '['⟩ :=
  (step_awaits h rfl (by decide)).trans (if_pos hroom)

theorem step_open_object (h : Awaits mode) (hroom : stack.length < depthLimit) :
    State.step ⟨stack, mode, p⟩ '{' = .ok ⟨.object [] :: stack, .objectOpen, p.pass '{'⟩ :=
  (step_awaits h rfl (by decide)).trans (if_pos hroom)

/-- A closing bracket after an element completes the array. -/
theorem run_close_array (done : List Json) (item : Json) (p : Position) (rest : List Char) :
    State.run (State.give ⟨.array done :: stack, .value, p⟩ item) (']' :: rest) =
      State.run (State.give ⟨stack, .value, p.pass ']'⟩ (.array (done.reverse ++ [item])))
        rest := by
  rw [← List.reverse_cons]
  exact congrArg (State.run · rest) (give_mode _ _ _)

/-- A closing brace after a field completes the object. -/
theorem run_close_object (done : List (String × Json)) (key : String) (value : Json)
    (p : Position) (rest : List Char) :
    State.run (State.give ⟨.field done key :: stack, .value, p⟩ value) ('\x7d' :: rest) =
      State.run (State.give ⟨stack, .value, p.pass '\x7d'⟩
        (.object (done.reverse ++ [(key, value)]))) rest := by
  rw [← List.reverse_cons]
  exact congrArg (State.run · rest) (give_mode _ _ _)

mutual

/-- The text of a value is read as that value, wherever a value may begin. -/
theorem run_write : ∀ (doc : Json) (stack : List Frame) (room : Nat),
    stack.length + room = depthLimit → doc.Sized room → doc.FloatFree →
    ∀ (mode : Mode) (p : Position) (rest : List Char), Awaits mode → doc.Follows rest →
      ∃ p', State.run ⟨stack, mode, p⟩ (doc.write ++ rest) =
        State.run (State.give ⟨stack, .value, p'⟩ doc) rest
  | .null, _, _, _, _, _, _, p, rest, hmode, _ =>
    run_word _ hmode (fun _ => rfl) rfl (by decide) p rest
  | .bool true, _, _, _, _, _, _, p, rest, hmode, _ =>
    run_word _ hmode (fun _ => rfl) rfl (by decide) p rest
  | .bool false, _, _, _, _, _, _, p, rest, hmode, _ =>
    run_word _ hmode (fun _ => rfl) rfl (by decide) p rest
  | .number (.integer n), _, _, _, hsized, _, _, p, _, hmode, hfollows => by
    obtain ⟨c, more, rfl, hc⟩ := hfollows _ rfl
    exact run_integer _ hmode (hsized.words n (.self _)) hc p more
  | .number (.real x), _, _, _, _, hfree, _, _, _, _, _ => absurd (.self _) (hfree x)
  | .string s, _, _, _, _, _, _, p, rest, hmode, _ => run_string _ hmode s p rest
  | .array _, _, 0, _, hsized, _, _, _, _, _, _ => absurd hsized.depth (by simp [Json.depth])
  | .object _, _, 0, _, hsized, _, _, _, _, _, _ => absurd hsized.depth (by simp [Json.depth])
  | .array [], _, room + 1, hroom, _, _, _, p, rest, hmode, _ => by
    refine ⟨(p.pass '[').pass ']', ?_⟩
    rw [show write (.array []) ++ rest = '[' :: ']' :: rest from rfl,
      run_cons (step_open_array hmode (by omega))]
    exact congrArg (State.run · rest) (give_mode _ _ _)
  | .array (item :: items), stack, room + 1, hroom, hsized, hfree, _, p, rest, hmode, _ => by
    obtain ⟨p', hp'⟩ := run_writeItems (item :: items) stack [] room hroom
      (sized_array_iff.mp hsized) (fun _ hitem => hfree.item hitem) (List.cons_ne_nil _ _)
      .arrayOpen (p.pass '[') rest (.inr (.inl rfl))
    refine ⟨p', ?_⟩
    rw [write, List.append_assoc, List.cons_append, List.singleton_append,
      run_cons (step_open_array hmode (by omega)), hp']
    rfl
  | .object [], _, room + 1, hroom, _, _, _, p, rest, hmode, _ => by
    refine ⟨(p.pass '{').pass '\x7d', ?_⟩
    rw [show write (.object []) ++ rest = '{' :: '\x7d' :: rest from rfl,
      run_cons (step_open_object hmode (by omega))]
    exact congrArg (State.run · rest) (give_mode _ _ _)
  | .object (field :: fields), stack, room + 1, hroom, hsized, hfree, _, p, rest, hmode, _ => by
    obtain ⟨p', hp'⟩ := run_writeFields (field :: fields) stack [] room hroom
      (sized_object_iff.mp hsized) (fun _ hfield => hfree.field hfield) (List.cons_ne_nil _ _)
      .objectOpen (p.pass '{') rest (.inl rfl)
    refine ⟨p', ?_⟩
    rw [write, List.append_assoc, List.cons_append, List.singleton_append,
      run_cons (step_open_object hmode (by omega)), hp']
    rfl

/-- The elements still to come join those of the innermost array. -/
theorem run_writeItems : ∀ (items : List Json) (stack : List Frame) (done : List Json)
    (room : Nat), stack.length + (room + 1) = depthLimit → (∀ item ∈ items, item.Sized room) →
    (∀ item ∈ items, item.FloatFree) → items ≠ [] →
    ∀ (mode : Mode) (p : Position) (rest : List Char), Awaits mode →
      ∃ p', State.run ⟨.array done :: stack, mode, p⟩ (writeItems items ++ ']' :: rest) =
        State.run (State.give ⟨stack, .value, p'⟩ (.array (done.reverse ++ items))) rest
  | [], _, _, _, _, _, _, hne, _, _, _, _ => absurd rfl hne
  | [item], stack, done, room, hroom, hsized, hfree, _, mode, p, rest, hmode => by
    obtain ⟨p', hp'⟩ := run_write item (.array done :: stack) room
      (by rw [List.length_cons]; omega) (hsized _ List.mem_cons_self)
      (hfree _ List.mem_cons_self) mode p (']' :: rest) hmode (follows_of_ends (.inr (.inl rfl)))
    exact ⟨p'.pass ']', hp'.trans (run_close_array done item p' rest)⟩
  | item :: next :: more, stack, done, room, hroom, hsized, hfree, _, mode, p, rest, hmode => by
    obtain ⟨p₁, h₁⟩ := run_write item (.array done :: stack) room
      (by rw [List.length_cons]; omega) (hsized _ List.mem_cons_self)
      (hfree _ List.mem_cons_self) mode p (',' :: (writeItems (next :: more) ++ ']' :: rest)) hmode
      (follows_of_ends (.inl rfl))
    obtain ⟨p₂, h₂⟩ := run_writeItems (next :: more) stack (item :: done) room hroom
      (fun i hi => hsized i (List.mem_cons_of_mem _ hi))
      (fun i hi => hfree i (List.mem_cons_of_mem _ hi)) (List.cons_ne_nil _ _)
      .arrayNext (p₁.pass ',') rest (.inr (.inr rfl))
    rw [List.reverse_cons, List.append_assoc, List.singleton_append] at h₂
    refine ⟨p₂, ?_⟩
    rw [writeItems, List.append_assoc, List.cons_append, h₁, run_cons rfl]
    · exact h₂
    · exact List.cons_ne_nil _ _

/-- The fields still to come join those of the innermost object. -/
theorem run_writeFields : ∀ (fields : List (String × Json)) (stack : List Frame)
    (done : List (String × Json)) (room : Nat), stack.length + (room + 1) = depthLimit →
    (∀ field ∈ fields, field.2.Sized room) → (∀ field ∈ fields, field.2.FloatFree) →
    fields ≠ [] → ∀ (mode : Mode) (p : Position) (rest : List Char),
      mode = .objectOpen ∨ mode = .objectNext →
      ∃ p', State.run ⟨.object done :: stack, mode, p⟩ (writeFields fields ++ '\x7d' :: rest) =
        State.run (State.give ⟨stack, .value, p'⟩ (.object (done.reverse ++ fields))) rest
  | [], _, _, _, _, _, _, hne, _, _, _, _ => absurd rfl hne
  | [(key, value)], stack, done, room, hroom, hsized, hfree, _, mode, p, rest, hmode => by
    obtain ⟨p₁, h₁⟩ := run_key (.object done :: stack) hmode key p
      (':' :: (value.write ++ '\x7d' :: rest))
    obtain ⟨p₂, h₂⟩ := run_write value (.field done key :: stack) room
      (by rw [List.length_cons]; omega) (hsized _ List.mem_cons_self)
      (hfree _ List.mem_cons_self) .value (p₁.pass ':') ('\x7d' :: rest) (.inl rfl)
      (follows_of_ends (.inr (.inr rfl)))
    refine ⟨p₂.pass '\x7d', ?_⟩
    rw [writeFields, List.append_assoc, List.cons_append, h₁, run_cons rfl, h₂,
      run_close_object done key value p₂ rest]
  | (key, value) :: next :: more, stack, done, room, hroom, hsized, hfree, _, mode, p, rest,
      hmode => by
    obtain ⟨p₁, h₁⟩ := run_key (.object done :: stack) hmode key p
      (':' :: (value.write ++ ',' :: (writeFields (next :: more) ++ '\x7d' :: rest)))
    obtain ⟨p₂, h₂⟩ := run_write value (.field done key :: stack) room
      (by rw [List.length_cons]; omega) (hsized _ List.mem_cons_self)
      (hfree _ List.mem_cons_self) .value (p₁.pass ':')
      (',' :: (writeFields (next :: more) ++ '\x7d' :: rest)) (.inl rfl)
      (follows_of_ends (.inl rfl))
    obtain ⟨p₃, h₃⟩ := run_writeFields (next :: more) stack ((key, value) :: done) room hroom
      (fun f hf => hsized f (List.mem_cons_of_mem _ hf))
      (fun f hf => hfree f (List.mem_cons_of_mem _ hf)) (List.cons_ne_nil _ _)
      .objectNext (p₂.pass ',') rest (.inr rfl)
    rw [List.reverse_cons, List.append_assoc, List.singleton_append] at h₃
    refine ⟨p₃, ?_⟩
    rw [writeFields, List.append_assoc, List.append_assoc, List.cons_append, List.cons_append, h₁,
      run_cons rfl, h₂, run_cons rfl]
    · exact h₃
    · exact List.cons_ne_nil _ _

end

/-! Whole texts. -/

/-- A number at the end of the text is read back too. -/
theorem read_integer {n : Int} (h : Number.IsWord n) :
    read (text (.number (.integer n))) = .ok (.number (.integer n)) := by
  obtain ⟨first, more, l, last, htext, hstart, htakes, hstands⟩ := Number.text_integer h
  obtain ⟨hspace, hclose, hbegin⟩ := begin_literal hstart
  obtain ⟨p', hp'⟩ := run_takes [] htakes (State.start.place.pass first) []
  have hrun : State.start.run (first :: more) = .ok ⟨[], .number last, p'⟩ := by
    rw [State.start, run_cons ((step_awaits (.inl rfl) hspace hclose).trans (hbegin _)), State.into]
    rw [List.append_nil] at hp'
    exact hp'
  rw [read, Json.text, String.toList_ofList, write, htext, hrun]
  simp only [State.finish, hstands.complete, hstands.value, State.give, if_true]

/-- A document without doubles is read back from its text. -/
theorem read_text {doc : Json} (hsized : doc.Sized depthLimit) (hfree : doc.FloatFree) :
    read doc.text = .ok doc := by
  by_cases hnumber : ∃ n, doc = .number n
  · rcases hnumber with ⟨n | x, rfl⟩
    · exact read_integer (hsized.words n (.self _))
    · exact absurd (.self _) (hfree x)
  · obtain ⟨p', hp'⟩ := run_write doc [] depthLimit (Nat.zero_add _) hsized hfree .value ⟨1, 0⟩ []
      (.inl rfl) fun n hn => absurd ⟨n, hn⟩ hnumber
    rw [List.append_nil] at hp'
    rw [read, Json.text, String.toList_ofList, State.start, hp']
    rfl

/-- The character that opens a literal is not blank. -/
theorem isBlank_literal {l : Literal} {c : Char} (h : Literal.start? c = some l) :
    Text.isBlank c = false := by
  have hcode : c.toNat = 45 ∨ 48 ≤ c.toNat ∧ c.toNat ≤ 57 := by
    by_cases hdigit : ('0' ≤ c && c ≤ '9') = true
    · simp only [Bool.and_eq_true, decide_eq_true_eq] at hdigit
      exact .inr hdigit
    · by_cases hsign : c = '-'
      · exact .inl (hsign ▸ rfl)
      · simp [Literal.start?, Number.digit?, hdigit, hsign] at h
  simp only [Text.isBlank, Bool.or_eq_false_iff, Bool.and_eq_false_iff, decide_eq_false_iff_not,
    beq_eq_false_iff_ne]
  omega

theorem text_not_blank {doc : Json} (hsized : doc.Sized depthLimit) (hfree : doc.FloatFree) :
    Text.isBlankText doc.text = false := by
  have hhead : ∃ c more, doc.write = c :: more ∧ Text.isBlank c = false := by
    match doc with
    | .null => exact ⟨_, _, rfl, rfl⟩
    | .bool true => exact ⟨_, _, rfl, rfl⟩
    | .bool false => exact ⟨_, _, rfl, rfl⟩
    | .string _ => exact ⟨_, _, rfl, rfl⟩
    | .array _ => exact ⟨_, _, rfl, rfl⟩
    | .object _ => exact ⟨_, _, rfl, rfl⟩
    | .number (.real x) => exact absurd (.self _) (hfree x)
    | .number (.integer n) =>
      obtain ⟨c, more, _, _, htext, hstart, _, _⟩ :=
        Number.text_integer (hsized.words n (.self _))
      exact ⟨c, more, htext, isBlank_literal hstart⟩
  obtain ⟨c, more, hwrite, hc⟩ := hhead
  simp [Text.isBlankText, Json.text, hwrite, hc]

end Json

/-- A payload that was written from a document without doubles is read as that
document with its keys unified. -/
theorem readPayload_text {doc : Json} (hsized : doc.Sized Json.depthLimit)
    (hfree : doc.FloatFree) : readPayload doc.text = .ok doc.unify := by
  rw [readPayload, Json.text_not_blank hsized hfree, if_neg Bool.false_ne_true,
    Json.read_text hsized hfree]

end Collate
