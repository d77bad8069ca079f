import Collate.Workbook.Markup
import Mathlib.Data.List.Infix

/-!
Markup as it is written, and what the reader meets in it. Character data comes in
pieces: text, verbatim sections, comments and references, each well formed by its
type. An element is written with its tags around what it holds. A stretch of a
document in which every element that is opened is closed again leaves the reader as
it was, except for what was met.
-/

namespace Collate.Workbook

/-! Written markup. -/

inductive Piece where
  | text (chars : List Char) (plain : ∀ c ∈ chars, c ≠ '<' ∧ c ≠ '&')
  | verbatim (chars : List Char) (unended : ¬ [']', ']', '>'] <:+: chars)
  | comment (chars : List Char) (unended : ¬ ['-', '-'] <:+: chars)
  | reference (name : List Char) (unended : ∀ c ∈ name, c ≠ ';' ∧ c ≠ '&' ∧ c ≠ '<')

namespace Piece

def write : Piece → List Char
  | .text chars _ => chars
  | .verbatim chars _ => "<![CDATA[".toList ++ chars ++ "]]>".toList
  | .comment chars _ => "<!--".toList ++ chars ++ "-->".toList
  | .reference name _ => '&' :: name ++ [';']

def content (counted : Bool) : Piece → List Char
  | .text chars _ => chars
  | .verbatim chars _ => if counted then chars else []
  | .comment _ _ | .reference _ _ => []

def isVerbatim : Piece → Bool
  | .verbatim _ _ => true
  | _ => false

end Piece

def openTag (tag : List Char) : List Char :=
  '<' :: tag ++ ['>']

def closeTag (name : List Char) : List Char :=
  '<' :: '/' :: name ++ ['>']

def element (tag : String) (inner : List Char) : List Char :=
  openTag tag.toList ++ inner ++ closeTag (Tag.ofContent tag.toList).name

/-! What is met. -/

def Event.content (counted : Bool) : Event → List Char
  | .text chars => chars
  | .verbatim chars => if counted then chars else []
  | _ => []

def Event.IsData : Event → Prop
  | .text _ | .verbatim _ => True
  | _ => False

/-- The character data reported when markup begins. -/
def flushed : List Char → List Event
  | [] => []
  | pending => [.text pending.reverse]

theorem flushed_reverse (pending : List Char) : (flushed pending).reverse = flushed pending := by
  cases pending <;> rfl

theorem flushed_isData (pending : List Char) : ∀ e ∈ flushed pending, e.IsData := by
  cases pending with
  | nil => exact nofun
  | cons => exact List.forall_mem_singleton.mpr trivial

theorem flushed_content (counted : Bool) (pending : List Char) :
    (flushed pending).flatMap (Event.content counted) = pending.reverse := by
  cases pending with
  | nil => rfl
  | cons => exact List.append_nil _

namespace Scanner

variable {before between after chars more : List Char} {events others : List Event}
  {names : List (List Char)} {met : List Event} {place : Place}

theorem flush_eq (s : Scanner) (pending : List Char) (place : Place) :
    s.flush pending place = ⟨place, s.openNames, flushed pending ++ s.met⟩ := by
  cases pending <;> rfl

/-- From text to text, the characters let the reader meet the events. -/
def Scans (before chars : List Char) (events : List Event) (after : List Char) : Prop :=
  ∀ names met, chars.foldl step ⟨.text before, names, met⟩ =
    ⟨.text after, names, events.reverse ++ met⟩

theorem Scans.nil (pending : List Char) : Scans pending [] [] pending := fun _ _ => rfl

theorem Scans.append (h : Scans before chars events between)
    (h' : Scans between more others after) :
    Scans before (chars ++ more) (events ++ others) after := by
  intro names met
  rw [List.foldl_append, h, h', List.reverse_append, List.append_assoc]

/-! Pieces. -/

theorem scans_text (h : ∀ c ∈ chars, c ≠ '<' ∧ c ≠ '&') :
    Scans before chars [] (chars.reverse ++ before) := by
  intro names met
  induction chars generalizing before with
  | nil => rfl
  | cons c rest ih =>
    obtain ⟨⟨hangle, hand⟩, hrest⟩ := List.forall_mem_cons.mp h
    have hstep : step ⟨.text before, names, met⟩ c = ⟨.text (c :: before), names, met⟩ := by
      simp [step, hangle, hand]
    rw [List.foldl_cons, hstep, ih hrest, List.reverse_cons, List.append_assoc,
      List.singleton_append]

theorem step_angle : step ⟨.text before, names, met⟩ '<' =
    ⟨.tagStart, names, flushed before ++ met⟩ :=
  flush_eq _ _ _

theorem scans_reference (h : ∀ c ∈ chars, c ≠ ';' ∧ c ≠ '&' ∧ c ≠ '<') :
    Scans before ('&' :: chars ++ [';']) (flushed before) [] := by
  intro names met
  have hname : ∀ s : Scanner, s.place = .reference → chars.foldl step s = s := by
    intro s hs
    induction chars with
    | nil => rfl
    | cons c rest ih =>
      obtain ⟨⟨hend, hand, hangle⟩, hrest⟩ := List.forall_mem_cons.mp h
      have hstep : s.step c = s := by
        simp [step, hs, hend, hand, hangle]
      rw [List.foldl_cons, hstep, ih hrest]
  have hbegin : step ⟨.text before, names, met⟩ '&' =
      ⟨.reference, names, flushed before ++ met⟩ := flush_eq _ _ _
  rw [List.foldl_append, List.foldl_cons, List.foldl_nil, List.foldl_cons, hbegin, hname _ rfl,
    flushed_reverse]
  rfl

/-- A list that begins, in reverse, with two characters ends with them. -/
theorem isInfix_of_take_reverse {done : List Char} {a b : Char} {head : List Char}
    (hlong : 2 ≤ done.length) (h : (done.reverse ++ head).take 2 = [a, b]) :
    ∃ front, done = front ++ [b, a] := by
  rw [List.take_append_of_le_length (by simpa using hlong)] at h
  obtain ⟨rest, hrest⟩ : [a, b] <+: done.reverse := h ▸ List.take_prefix _ _
  refine ⟨rest.reverse, ?_⟩
  rw [← List.reverse_reverse done, ← hrest]
  simp

/-- A comment goes on as long as there are no two hyphens in a row. -/
theorem feed_comment {done : List Char} (h : ¬ ['-', '-'] <:+: done ++ chars) :
    chars.foldl step ⟨.comment (done.reverse ++ ['-', '-', '!']), names, met⟩ =
      ⟨.comment ((done ++ chars).reverse ++ ['-', '-', '!']), names, met⟩ := by
  induction chars generalizing done with
  | nil => rw [List.append_nil, List.foldl_nil]
  | cons c rest ih =>
    have hstep : step ⟨.comment (done.reverse ++ ['-', '-', '!']), names, met⟩ c =
        ⟨.comment ((done ++ [c]).reverse ++ ['-', '-', '!']), names, met⟩ := by
      simp only [step]
      rw [if_neg]
      · simp
      · simp only [Bool.and_eq_true, decide_eq_true_eq, beq_iff_eq, List.length_append,
          List.length_reverse, List.length_cons, List.length_nil]
        rintro ⟨⟨rfl, hlong⟩, htake⟩
        -- the hyphens that open the comment are not those that end it
        obtain ⟨front, rfl⟩ := isInfix_of_take_reverse (by omega) htake
        exact h ⟨front, '>' :: rest, by simp⟩
    rw [List.foldl_cons, hstep, ih (by simpa using h)]
    simp

theorem scans_comment (h : ¬ ['-', '-'] <:+: chars) :
    Scans before ("<!--".toList ++ chars ++ "-->".toList) (flushed before) [] := by
  intro names met
  have hopen : "<!--".toList.foldl step ⟨.text before, names, met⟩ =
      ⟨.comment ['-', '-', '!'], names, flushed before ++ met⟩ := by
    rw [show "<!--".toList = ['<', '!', '-', '-'] from rfl, List.foldl_cons, step_angle]
    rfl
  have hbody := @feed_comment chars names (flushed before ++ met) [] h
  have hend : step ⟨.comment ('-' :: '-' :: (chars.reverse ++ ['-', '-', '!'])), names,
      flushed before ++ met⟩ '>' = ⟨.text [], names, flushed before ++ met⟩ := by
    simp [step, endComment]
  rw [List.foldl_append, List.foldl_append, hopen, flushed_reverse, ← hend]
  exact congrArg ("-->".toList.foldl step) hbody

/-- A verbatim section goes on to the first place where its end stands. -/
theorem feed_verbatim {done : List Char} (h : ¬ [']', ']', '>'] <:+: done ++ chars) :
    chars.foldl step ⟨.verbatim (done.reverse ++ "[ATADC[!".toList), names, met⟩ =
      ⟨.verbatim ((done ++ chars).reverse ++ "[ATADC[!".toList), names, met⟩ := by
  induction chars generalizing done with
  | nil => rw [List.append_nil, List.foldl_nil]
  | cons c rest ih =>
    have hstep : step ⟨.verbatim (done.reverse ++ "[ATADC[!".toList), names, met⟩ c =
        ⟨.verbatim ((done ++ [c]).reverse ++ "[ATADC[!".toList), names, met⟩ := by
      simp only [step]
      rw [if_neg]
      · simp
      · simp only [Bool.and_eq_true, beq_iff_eq]
        rintro ⟨rfl, htake⟩
        -- the bracket that opens the section is none of those that end it
        have hlong : 2 ≤ done.length := by
          match done with
          | [] => cases htake
          | [d] => simp at htake
          | _ :: _ :: _ => simp
        obtain ⟨front, rfl⟩ := isInfix_of_take_reverse hlong htake
        exact h ⟨front, rest, by simp⟩
    rw [List.foldl_cons, hstep, ih (by simpa using h)]
    simp

theorem scans_verbatim (h : ¬ [']', ']', '>'] <:+: chars) :
    Scans before ("<![CDATA[".toList ++ chars ++ "]]>".toList)
      (flushed before ++ [.verbatim chars]) [] := by
  intro names met
  have hopen : "<![CDATA[".toList.foldl step ⟨.text before, names, met⟩ =
      ⟨.verbatim "[ATADC[!".toList, names, flushed before ++ met⟩ := by
    rw [show "<![CDATA[".toList = '<' :: "![CDATA[".toList from rfl, List.foldl_cons, step_angle]
    rfl
  have hbody := @feed_verbatim chars names (flushed before ++ met) [] h
  have hend : step ⟨.verbatim (']' :: ']' :: (chars.reverse ++ "[ATADC[!".toList)), names,
      flushed before ++ met⟩ '>' =
        ⟨.text [], names, .verbatim chars :: (flushed before ++ met)⟩ := by
    simp [step, endVerbatim, report]
  rw [List.foldl_append, List.foldl_append, hopen, List.reverse_append, flushed_reverse]
  refine Eq.trans ?_ hend
  exact congrArg ("]]>".toList.foldl step) hbody

/-- What is met in pieces of character data is data with the content of the pieces, the text
before them included. -/
theorem scans_pieces (pieces : List Piece) (before : List Char) : ∃ events after,
    Scans before (pieces.flatMap Piece.write) events after ∧ (∀ e ∈ events, e.IsData) ∧
    ∀ counted, events.flatMap (Event.content counted) ++ after.reverse =
      before.reverse ++ pieces.flatMap (Piece.content counted) := by
  induction pieces generalizing before with
  | nil => exact ⟨[], before, .nil before, nofun, fun _ => by simp⟩
  | cons piece rest ih =>
    have hpiece : ∃ events after, Scans before piece.write events after ∧
        (∀ e ∈ events, e.IsData) ∧ ∀ counted,
        events.flatMap (Event.content counted) ++ after.reverse =
          before.reverse ++ piece.content counted := by
      cases piece with
      | text chars h =>
        refine ⟨_, _, @scans_text before chars h, nofun, fun counted => ?_⟩
        simp [Piece.content]
      | verbatim chars h =>
        refine ⟨_, _, scans_verbatim h, ?_, fun counted => ?_⟩
        · exact List.forall_mem_append.mpr
            ⟨flushed_isData before, List.forall_mem_singleton.mpr trivial⟩
        · simp [flushed_content, Event.content, Piece.content]
      | comment chars h =>
        refine ⟨_, _, scans_comment h, flushed_isData before, fun counted => ?_⟩
        simp [flushed_content, Piece.content]
      | reference name h =>
        refine ⟨_, _, scans_reference h, flushed_isData before, fun counted => ?_⟩
        simp [flushed_content, Piece.content]
    obtain ⟨events, between, hscans, hdata, hcontent⟩ := hpiece
    obtain ⟨others, after, hscans', hdata', hcontent'⟩ := ih between
    refine ⟨events ++ others, after, hscans.append hscans',
      List.forall_mem_append.mpr ⟨hdata, hdata'⟩, fun counted => ?_⟩
    rw [List.flatMap_append, List.append_assoc, hcontent', ← List.append_assoc, hcontent,
      List.flatMap_cons, List.append_assoc]

/-! Elements. -/

/-- Where values begin and end in the characters of a tag, if they do not end the tag. -/
def quotes (quote : Option Char) (chars : List Char) : Option (Option Char) :=
  chars.foldlM (fun quote c => inTag c quote) quote

/-- Inside a tag of either kind characters are taken up to its end. -/
theorem feed_tag {place : List Char → Option Char → Place}
    (hplace : ∀ content quote c next, inTag c quote = some next →
      step ⟨place content quote, names, met⟩ c = ⟨place (c :: content) next, names, met⟩)
    {quote after : Option Char} (h : quotes quote chars = some after) (content : List Char) :
    chars.foldl step ⟨place content quote, names, met⟩ =
      ⟨place (chars.reverse ++ content) after, names, met⟩ := by
  induction chars generalizing quote content with
  | nil =>
    cases h
    rfl
  | cons c rest ih =>
    simp only [quotes, List.foldlM_cons, Option.bind_eq_bind, Option.bind_eq_some_iff] at h
    obtain ⟨next, hnext, hrest⟩ := h
    rw [List.foldl_cons, hplace _ _ _ _ hnext, ih hrest, List.reverse_cons, List.append_assoc,
      List.singleton_append]

/-- Whether a tag is read as it is written: neither an empty nor a closing one, its values
closed, its name without blanks. -/
def isTag : List Char → Bool
  | [] => false
  | c :: rest =>
    let name := (Tag.ofContent (c :: rest)).name
    !"!/?>\"'".toList.contains c && quotes none rest == some none &&
      (c :: rest).getLast? != some '/' && quotes none name == some none &&
      closingName name.reverse == name

theorem feed_open {tag : List Char} (h : isTag tag = true) :
    (openTag tag).foldl step ⟨.text before, names, met⟩ =
      ⟨.text [], (Tag.ofContent tag).name :: names,
        .opened (Tag.ofContent tag) :: (flushed before ++ met)⟩ := by
  obtain _ | ⟨c, rest⟩ := tag
  · cases h
  simp only [isTag, Bool.and_eq_true, Bool.not_eq_true', beq_iff_eq, bne_iff_ne] at h
  obtain ⟨⟨⟨⟨hfirst, hquotes⟩, hlast⟩, -⟩, -⟩ := h
  have hbegin : step ⟨.tagStart, names, flushed before ++ met⟩ c =
      ⟨.element [c] none, names, flushed before ++ met⟩ := by
    simp only [step, begin]
    split <;> first | rfl | simp at hfirst
  have hend : ∀ content : List Char, content.head? ≠ some '/' →
      step ⟨.element content none, names, flushed before ++ met⟩ '>' =
        ⟨.text [], (Tag.ofContent content.reverse).name :: names,
          .opened (Tag.ofContent content.reverse) :: (flushed before ++ met)⟩ := by
    intro content hcontent
    have hend : (⟨.element content none, names, flushed before ++ met⟩ : Scanner).step '>' =
        endElement ⟨.element content none, names, flushed before ++ met⟩ content := rfl
    rw [hend, endElement]
    · rfl
    · rintro rest rfl
      exact hcontent rfl
  have hhead : (rest.reverse ++ [c]).head? ≠ some '/' := by
    rwa [← List.reverse_cons, List.head?_reverse]
  have htag : (rest.reverse ++ [c]).reverse = c :: rest := by simp
  have hbody : rest.foldl step ⟨.element [c] none, names, flushed before ++ met⟩ =
      ⟨.element (rest.reverse ++ [c]) none, names, flushed before ++ met⟩ :=
    feed_tag (fun _ _ _ _ hnext => by simp only [step, hnext]) hquotes [c]
  rw [openTag, List.foldl_append, List.foldl_cons, List.foldl_nil, List.foldl_cons, step_angle,
    List.foldl_cons, hbegin, hbody, hend _ hhead, htag]

theorem feed_close {name : List Char} (hquotes : quotes none name = some none)
    (hname : closingName name.reverse = name) :
    (closeTag name).foldl step ⟨.text before, name :: names, met⟩ =
      ⟨.text [], names, .closed name :: (flushed before ++ met)⟩ := by
  have hbegin : step ⟨.tagStart, name :: names, flushed before ++ met⟩ '/' =
      ⟨.closing [] none, name :: names, flushed before ++ met⟩ := rfl
  have hbody : name.foldl step ⟨.closing [] none, name :: names, flushed before ++ met⟩ =
      ⟨.closing (name.reverse ++ []) none, name :: names, flushed before ++ met⟩ :=
    feed_tag (fun _ _ _ _ hnext => by simp only [step, hnext]) hquotes []
  have hend : step ⟨.closing name.reverse none, name :: names, flushed before ++ met⟩ '>' =
      ⟨.text [], names, .closed name :: (flushed before ++ met)⟩ := by
    simp [step, inTag, endClosing, hname, report]
  rw [List.append_nil] at hbody
  rw [closeTag, List.foldl_append, List.foldl_cons, List.foldl_nil, List.foldl_cons, step_angle,
    List.foldl_cons, hbegin, hbody, hend]

/-- An element is opened, what it holds is met, and it is closed again. -/
theorem Scans.element {tag : String} (htag : isTag tag.toList = true)
    (h : Scans [] chars events after) :
    Scans before (element tag chars)
      (flushed before ++ .opened (Tag.ofContent tag.toList) :: events ++ flushed after ++
        [.closed (Tag.ofContent tag.toList).name]) [] := by
  intro names met
  have hname : quotes none (Tag.ofContent tag.toList).name = some none ∧
      closingName (Tag.ofContent tag.toList).name.reverse = (Tag.ofContent tag.toList).name := by
    revert htag
    cases tag.toList with
    | nil => exact nofun
    | cons c rest => simp +contextual [isTag]
  rw [Workbook.element, List.foldl_append, List.foldl_append, feed_open htag, h,
    feed_close hname.1 hname.2]
  simp [flushed_reverse]

/-! What is met does not depend on what was met before. -/

/-- The reader goes on in the same way whatever was met before, and meets at most one more event;
behind a tag it is at text again. -/
def Reports (next : List Event → Scanner) : Prop :=
  ∃ place names event?, (∀ met, next met = ⟨place, names, Option.toList event? ++ met⟩) ∧
    ∀ e ∈ event?, e.IsData ∨ place = .text []

theorem reports_nothing (place : Place) (names : List (List Char)) :
    Reports fun met => ⟨place, names, met⟩ :=
  ⟨place, names, none, fun _ => rfl, nofun⟩

theorem reports_event (names : List (List Char)) (e : Event) :
    Reports fun met => ⟨.text [], names, e :: met⟩ :=
  ⟨.text [], names, some e, fun _ => rfl, fun _ _ => .inr rfl⟩

theorem reports_flush (pending : List Char) (next : Place) :
    Reports fun met => flush ⟨place, names, met⟩ pending next := by
  cases pending with
  | nil => exact reports_nothing next names
  | cons c rest =>
    exact ⟨next, names, some (.text (c :: rest).reverse), fun _ => rfl,
      fun e he => .inl (Option.some.inj he ▸ trivial)⟩

theorem reports_endElement (content : List Char) :
    Reports fun met => endElement ⟨place, names, met⟩ content := by
  unfold endElement
  split
  · exact reports_event names _
  · exact reports_event (_ :: names) (.opened (Tag.ofContent content.reverse))

theorem reports_endClosing (content : List Char) :
    Reports fun met => endClosing ⟨place, names, met⟩ content := by
  cases names with
  | nil => exact reports_nothing _ _
  | cons expected rest =>
    simp only [endClosing]
    by_cases hname : closingName content = expected
    · simp only [hname, if_true]
      exact reports_event _ _
    · simp only [hname, if_false]
      exact reports_nothing _ _

theorem reports_endComment (content : List Char) :
    Reports fun met => endComment ⟨place, names, met⟩ content := by
  unfold endComment
  split <;> exact reports_nothing _ _

theorem reports_endVerbatim (content : List Char) :
    Reports fun met => endVerbatim ⟨place, names, met⟩ content := by
  unfold endVerbatim
  split
  · exact reports_event _ _
  · exact reports_nothing _ _

theorem reports_endDoctype (content : List Char) :
    Reports fun met => endDoctype ⟨place, names, met⟩ content := by
  simp only [endDoctype]
  split
  · split <;> exact reports_nothing _ _
  · exact reports_nothing _ _

theorem reports_begin (c : Char) :
    Reports fun met => begin ⟨place, names, met⟩ c := by
  unfold begin
  split
  case h_4 => exact reports_endElement []
  all_goals exact reports_nothing _ _

theorem reports_step (c : Char) :
    Reports fun met => step ⟨place, names, met⟩ c := by
  cases place with
  | text pending =>
    simp only [step]
    split
    · exact reports_flush ..
    · split
      · exact reports_flush ..
      · exact reports_nothing _ _
  | tagStart => exact reports_begin c
  | element content quote =>
    simp only [step]
    split
    · exact reports_endElement content
    · exact reports_nothing _ _
  | closing content quote =>
    simp only [step]
    split
    · exact reports_endClosing content
    · exact reports_nothing _ _
  | comment content =>
    simp only [step]
    split
    · exact reports_endComment content
    · exact reports_nothing _ _
  | verbatim content =>
    simp only [step]
    split
    · exact reports_endVerbatim content
    · exact reports_nothing _ _
  | doctype content depth =>
    simp only [step]
    repeat' split
    all_goals first | exact reports_endDoctype content | exact reports_nothing _ _
  | _ =>
    -- nothing is reported anywhere else
    simp only [step, fail]
    repeat' split
    all_goals exact reports_nothing _ _

def preceded (s : Scanner) (old : List Event) : Scanner :=
  { s with met := s.met ++ old }

theorem step_preceded (s : Scanner) (old : List Event) (c : Char) :
    (s.preceded old).step c = (s.step c).preceded old := by
  obtain ⟨place, names, met⟩ := s
  obtain ⟨place', names', event?, hstep, -⟩ := @reports_step names place c
  simp only [preceded, hstep, List.append_assoc]

theorem foldl_preceded (s : Scanner) (old : List Event) (chars : List Char) :
    chars.foldl step (s.preceded old) = (chars.foldl step s).preceded old := by
  induction chars generalizing s with
  | nil => rfl
  | cons c rest ih => rw [List.foldl_cons, step_preceded, ih, List.foldl_cons]

theorem finish_preceded (s : Scanner) (old : List Event) :
    (s.preceded old).finish = s.finish.preceded old := by
  obtain ⟨place, names, met⟩ := s
  cases place with
  | text pending => simp [finish, preceded, flush_eq]
  | _ => rfl

/-- At the end of a document only character data is met. -/
theorem finish_met (s : Scanner) : ∃ pending, s.finish.met = flushed pending ++ s.met := by
  obtain ⟨place, names, met⟩ := s
  cases place with
  | text pending => exact ⟨pending, congrArg Scanner.met (flush_eq _ pending (.text []))⟩
  | _ => exact ⟨[], rfl⟩

/-! Whole documents. -/

end Scanner

def Markup.behind (m : Markup) (before : List Event) : Markup :=
  ⟨before ++ m.events, m.fault⟩

theorem Markup.behind_behind (m : Markup) (before between : List Event) :
    (m.behind between).behind before = m.behind (before ++ between) := by
  simp [behind]

namespace Scanner

def markup (s : Scanner) : Markup :=
  ⟨s.finish.met.reverse, match s.finish.place with
    | .failed fault => some fault
    | _ => none⟩

theorem markup_preceded (s : Scanner) (old : List Event) :
    (s.preceded old).markup = s.markup.behind old.reverse := by
  rw [markup, finish_preceded]
  simp [preceded, markup, Markup.behind]

theorem markup_text (names : List (List Char)) (events : List Event) :
    (⟨.text [], names, events.reverse⟩ : Scanner).markup = ⟨events, none⟩ := by
  simp [markup, finish, flush]

/-- The reader after some characters, a byte-order mark in front passed over. -/
def scanned (chars : List Char) : Scanner :=
  (match chars with
    | '\uFEFF' :: rest => rest
    | other => other).foldl step start

theorem scanned_eq {chars : List Char} (h : chars.head? ≠ some '\uFEFF') :
    scanned chars = chars.foldl step start := by
  unfold scanned
  split
  · exact absurd rfl h
  · rfl

theorem scanned_append {chars : List Char} (hne : chars ≠ []) (rest : List Char) :
    scanned (chars ++ rest) = rest.foldl step (scanned chars) := by
  by_cases hmark : chars.head? = some '\uFEFF'
  · obtain ⟨more, rfl⟩ := List.head?_eq_some_iff.mp hmark
    exact List.foldl_append
  · have hsame : (chars ++ rest).head? = chars.head? := List.head?_append_of_ne_nil _ hne
    rw [scanned_eq hmark, scanned_eq (hsame ▸ hmark), List.foldl_append]

end Scanner

open Scanner (Scans step scanned)

theorem Markup.read_eq (document : List Char) : Markup.read document = (scanned document).markup :=
  rfl

/-- A document in which every element is closed is read without a fault. -/
theorem Markup.read_element {tag : String} {chars : List Char} {events : List Event}
    (h : Scans [] (element tag chars) events []) :
    Markup.read (element tag chars) = ⟨events, none⟩ := by
  have hread : scanned (element tag chars) = ⟨.text [], [], events.reverse ++ []⟩ :=
    (Scanner.scanned_eq (by simp [element, openTag])).trans (h [] [])
  rw [Markup.read_eq, hread, List.append_nil, Scanner.markup_text]

/-- Behind a stretch in which every element is closed a document goes on inside the same
elements. -/
theorem Scanner.Scans.markup_append {chars : List Char} {events : List Event}
    (h : Scans [] chars events []) (names : List (List Char)) (rest : List Char) :
    ((chars ++ rest).foldl step ⟨.text [], names, []⟩).markup =
      (rest.foldl step ⟨.text [], names, []⟩).markup.behind events := by
  have hbehind : chars.foldl step ⟨.text [], names, []⟩ =
      (⟨.text [], names, []⟩ : Scanner).preceded events.reverse := by
    rw [h, List.append_nil]
    rfl
  rw [List.foldl_append, hbehind, foldl_preceded, markup_preceded, List.reverse_reverse]

/-- Behind what was read a document goes on as it would inside the same elements, whatever was
met before. -/
theorem Markup.read_append {chars rest : List Char} {names : List (List Char)}
    {events : List Event} (hne : chars ≠ [])
    (h : scanned chars = ⟨.text [], names, events.reverse⟩) :
    Markup.read (chars ++ rest) =
      (rest.foldl step ⟨.text [], names, []⟩).markup.behind events := by
  have hbehind : (⟨.text [], names, events.reverse⟩ : Scanner) =
      (⟨.text [], names, []⟩ : Scanner).preceded events.reverse := rfl
  rw [Markup.read_eq, Scanner.scanned_append hne, h, hbehind, Scanner.foldl_preceded,
    Scanner.markup_preceded, List.reverse_reverse]

end Collate.Workbook
