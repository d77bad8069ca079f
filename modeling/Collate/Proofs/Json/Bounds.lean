import Collate.Payload
import Collate.Proofs.Json.Unify

/-!
What the reader lets pass. It opens a container only while fewer than the greatest
number are open, and takes a number without fraction and exponent for a whole one
only if 64 bits hold it. So every document that is read is bounded in depth and in
its whole numbers; the invariant counts, for every open container, how many more
may be opened inside it.
-/

namespace Collate

namespace Json

def Frame.All (P : Json → Prop) : Frame → Prop
  | .array items => ∀ item ∈ items, P item
  | .object fields | .field fields _ => ∀ field ∈ fields, P field.2

/-- Open containers inside which so many more may be opened, all that they hold
fitting where it stands. -/
inductive StackFits : List Frame → Nat → Prop
  | nil : StackFits [] depthLimit
  | cons {frame : Frame} {stack : List Frame} {room : Nat} :
      frame.All (Sized room) → StackFits stack (room + 1) → StackFits (frame :: stack) room

def ModeFits : Mode → Prop
  | .word _ result => ∀ room, result.Sized room
  | .number literal => literal.significand ≤ Number.maxWord
  | .finished result => result.Sized depthLimit
  | _ => True

/-- The reader between two characters, with nothing too deep or too large. -/
def State.Fits (s : State) : Prop :=
  (∃ room, StackFits s.stack room) ∧ ModeFits s.mode

variable {s s' : State} {c : Char} {stack : List Frame} {room : Nat}

theorem StackFits.length_add (h : StackFits stack room) : stack.length + room = depthLimit := by
  induction h with
  | nil => exact Nat.zero_add _
  | cons _ _ ih =>
    rw [List.length_cons]
    omega

theorem Sized.of_string (text : String) : Sized room (.string text) :=
  .of_scalar rfl nofun

theorem State.Fits.into (h : s.Fits) {mode : Mode} (hmode : ModeFits mode) :
    (s.into c mode).Fits :=
  ⟨h.1, hmode⟩

/-- A value that fits inside the innermost container may be given to it. -/
theorem give_fits (hstack : StackFits s.stack room) {value : Json} (h : value.Sized room) :
    (s.give value).Fits := by
  obtain ⟨stack, mode, place⟩ := s
  cases hstack with
  | nil => exact ⟨⟨_, .nil⟩, h⟩
  | @cons frame rest _ hall hrest =>
    cases frame with
    | array items => exact ⟨⟨room, .cons (List.forall_mem_cons.mpr ⟨h, hall⟩) hrest⟩, trivial⟩
    | field fields key =>
      have hfields : ∀ field ∈ (key, value) :: fields, field.2.Sized room :=
        List.forall_mem_cons.mpr ⟨h, hall⟩
      exact ⟨⟨room, .cons hfields hrest⟩, trivial⟩
    | object fields =>
      have hle := (StackFits.cons hall hrest).length_add
      exact ⟨⟨room, .cons hall hrest⟩, h.mono (by omega)⟩

theorem close_fits (h : s.Fits) : s.close.Fits := by
  obtain ⟨⟨room, hstack⟩, hmode⟩ := h
  obtain ⟨stack, mode, place⟩ := s
  cases hstack with
  | nil => exact ⟨⟨_, .nil⟩, hmode⟩
  | @cons frame rest _ hall hrest =>
    cases frame with
    | array items =>
      refine give_fits hrest (sized_array_iff.mpr fun item hitem => ?_)
      exact hall item (List.mem_reverse.mp hitem)
    | field fields key => exact ⟨⟨room, .cons hall hrest⟩, hmode⟩
    | object fields =>
      refine give_fits hrest (sized_object_iff.mpr fun field hfield => ?_)
      exact hall field (List.mem_reverse.mp hfield)

theorem open_fits (h : s.Fits) (frame : Frame) (mode : Mode) (hframe : ∀ P, frame.All P)
    (hmode : ModeFits mode) (hopen : s.open c frame mode = .ok s') : s'.Fits := by
  obtain ⟨⟨room, hstack⟩, -⟩ := h
  unfold State.open at hopen
  split at hopen
  · rename_i hlength
    cases hopen
    have hroom := hstack.length_add
    obtain ⟨less, rfl⟩ : ∃ less, room = less + 1 := ⟨room - 1, by omega⟩
    exact ⟨⟨less, .cons (hframe _) hstack⟩, hmode⟩
  · cases hopen

theorem begin_fits (h : s.Fits) (hbegin : s.begin c = .ok s') : s'.Fits := by
  unfold State.begin at hbegin
  split at hbegin
  · cases hbegin
    exact h.into trivial
  · exact open_fits h (.array []) .arrayOpen (fun _ => List.forall_mem_nil _) trivial hbegin
  · exact open_fits h (.object []) .objectOpen (fun _ => List.forall_mem_nil _) trivial hbegin
  · cases hbegin
    exact h.into fun _ => .of_scalar rfl nofun
  · cases hbegin
    exact h.into fun _ => .of_scalar rfl nofun
  · cases hbegin
    exact h.into fun _ => .of_scalar rfl nofun
  · split at hbegin
    · rename_i literal hliteral
      cases hbegin
      exact h.into (Number.Literal.start?_bounded hliteral)
    · cases hbegin

theorem after_fits (h : s.Fits) (hafter : s.after c = .ok s') : s'.Fits := by
  have hclose : ∀ place, State.Fits (State.close ⟨s.stack, s.mode, place⟩) :=
    fun place => close_fits ⟨h.1, h.2⟩
  unfold State.after at hafter
  split at hafter
  · cases hafter
    exact h.into h.2
  · split at hafter
    · split at hafter
      · cases hafter
        exact h.into trivial
      · split at hafter
        · cases hafter
          exact hclose _
        · cases hafter
    · split at hafter
      · cases hafter
        exact h.into trivial
      · split at hafter
        · cases hafter
          exact hclose _
        · cases hafter
    · cases hafter

theorem endString_fits (h : s.Fits) (isKey : Bool) (done : List Char) :
    (s.endString isKey done).Fits := by
  obtain ⟨⟨room, hstack⟩, -⟩ := h
  cases isKey with
  | false => exact give_fits hstack (.of_string _)
  | true => exact ⟨⟨room, hstack⟩, trivial⟩

theorem stepUnit_fits (h : s.Fits) {isKey : Bool} {done : List Char} {missing : Nat}
    {code high : Option Nat} (hstep : s.stepUnit isKey done missing code high c = .ok s') :
    s'.Fits := by
  simp only [State.stepUnit] at hstep
  split at hstep
  · cases hstep
    exact ⟨h.1, trivial⟩
  · split at hstep
    · cases hstep
    · split at hstep
      · cases hstep
        exact ⟨h.1, trivial⟩
      · cases hstep
        exact ⟨h.1, trivial⟩
      · cases hstep

theorem stepString_fits (h : s.Fits) {isKey : Bool} {done : List Char} {escape : Escape}
    (hstep : s.stepString isKey done escape c = .ok s') : s'.Fits := by
  cases escape with
  | plain =>
    simp only [State.stepString] at hstep
    split at hstep
    · cases hstep
      exact endString_fits (s := { s with place := s.place.pass c }) ⟨h.1, h.2⟩ isKey done
    · split at hstep
      · cases hstep
        exact h.into trivial
      · split at hstep
        · cases hstep
        · cases hstep
          exact h.into trivial
  | backslash =>
    simp only [State.stepString] at hstep
    split at hstep
    · cases hstep
      exact h.into trivial
    · split at hstep
      · cases hstep
        exact h.into trivial
      · cases hstep
  | unit missing code high => exact stepUnit_fits h hstep
  | pair high =>
    simp only [State.stepString] at hstep
    split at hstep
    · cases hstep
      exact h.into trivial
    · cases hstep
  | pairBackslash high =>
    simp only [State.stepString] at hstep
    split at hstep
    · cases hstep
      exact h.into trivial
    · cases hstep

/-- What a literal stands for fits anywhere. -/
theorem number_sized {literal : Number.Literal} {n : Number}
    (h : literal.significand ≤ Number.maxWord) (hn : literal.value? = some n) :
    Sized room (.number n) := by
  cases n with
  | integer n => exact .of_word (Number.Literal.value?_isWord h hn)
  | real x => exact .of_scalar rfl nofun

theorem stepNumber_fits (h : s.Fits) {literal : Number.Literal}
    (hliteral : literal.significand ≤ Number.maxWord)
    (hstep : s.stepNumber literal c = .ok s') : s'.Fits := by
  unfold State.stepNumber at hstep
  split at hstep
  · rename_i next hfeed
    cases hstep
    exact h.into (Number.Literal.feed_bounded hliteral hfeed)
  · cases hstep
  · cases hstep
  · split at hstep
    · rename_i n hn
      obtain ⟨room, hstack⟩ := h.1
      exact after_fits (give_fits hstack (number_sized hliteral hn)) hstep
    · cases hstep

/-- One character keeps the reader within bounds. -/
theorem step_fits (h : s.Fits) (hstep : s.step c = .ok s') : s'.Fits := by
  obtain ⟨stack, mode, place⟩ := s
  have hclose : State.Fits (State.close ⟨stack, mode, place.pass c⟩) := close_fits ⟨h.1, h.2⟩
  obtain ⟨room, hstack⟩ := id h.1
  cases mode with
  | string isKey done escape => exact stepString_fits h hstep
  | number literal => exact stepNumber_fits h h.2 hstep
  | arrayEnd => exact after_fits h hstep
  | objectEnd => exact after_fits h hstep
  | finished result => exact after_fits h hstep
  | word letters result =>
    cases letters with
    | nil => exact after_fits (give_fits hstack (h.2 room)) hstep
    | cons expected more =>
      simp only [State.step] at hstep
      split at hstep
      · split at hstep
        · cases hstep
          exact give_fits (s := ⟨stack, _, place.pass c⟩) hstack (h.2 room)
        · cases hstep
          exact ⟨h.1, h.2⟩
      · cases hstep
  | value =>
    simp only [State.step] at hstep
    split at hstep
    · cases hstep
      exact ⟨h.1, trivial⟩
    · exact begin_fits h hstep
  | arrayOpen =>
    simp only [State.step] at hstep
    split at hstep
    · cases hstep
      exact ⟨h.1, trivial⟩
    · split at hstep
      · cases hstep
        exact hclose
      · exact begin_fits h hstep
  | arrayNext =>
    simp only [State.step] at hstep
    split at hstep
    · cases hstep
      exact ⟨h.1, trivial⟩
    · split at hstep
      · cases hstep
      · exact begin_fits h hstep
  | objectOpen =>
    simp only [State.step] at hstep
    split at hstep
    · cases hstep
      exact ⟨h.1, trivial⟩
    · split at hstep
      · cases hstep
        exact hclose
      · split at hstep
        · cases hstep
          exact ⟨h.1, trivial⟩
        · cases hstep
  | objectNext =>
    simp only [State.step] at hstep
    split at hstep
    · cases hstep
      exact ⟨h.1, trivial⟩
    · split at hstep
      · cases hstep
      · split at hstep
        · cases hstep
          exact ⟨h.1, trivial⟩
        · cases hstep
  | colon key =>
    simp only [State.step] at hstep
    split at hstep
    · cases hstep
      exact ⟨h.1, trivial⟩
    · split at hstep
      · split at hstep
        · cases hstack with
          | cons hall hrest =>
            cases hstep
            exact ⟨⟨room, .cons hall hrest⟩, trivial⟩
        · cases hstep
          exact ⟨h.1, trivial⟩
      · cases hstep

theorem run_fits {text : List Char} (h : s.Fits) (hrun : s.run text = .ok s') : s'.Fits := by
  induction text generalizing s with
  | nil =>
    cases hrun
    exact h
  | cons c rest ih =>
    rw [State.run] at hrun
    split at hrun
    · rename_i next hstep
      exact ih (step_fits h hstep) hrun
    · cases hrun

theorem finish_sized {doc : Json} (h : s.Fits) (hfinish : s.finish = .ok doc) :
    doc.Sized depthLimit := by
  obtain ⟨stack, mode, place⟩ := s
  cases mode
  case finished result =>
    cases hfinish
    exact h.2
  case number literal =>
    obtain ⟨room, hstack⟩ := h.1
    simp only [State.finish] at hfinish
    split at hfinish
    · split at hfinish
      · cases hfinish
      · rename_i n hn
        have hgive := give_fits hstack (number_sized h.2 hn)
        split at hfinish
        · rename_i heq
          cases hfinish
          rw [heq] at hgive
          exact hgive.2
        · cases hfinish
        · cases hfinish
    · cases hfinish
  all_goals cases hfinish

/-- No document is read that is too deep or has a whole number beyond 64 bits. -/
theorem read_sized {text : String} {doc : Json} (h : read text = .ok doc) :
    doc.Sized depthLimit := by
  have hstart : State.start.Fits := ⟨⟨_, .nil⟩, trivial⟩
  unfold read at h
  split at h
  · rename_i last hrun
    exact finish_sized (run_fits hstart hrun) h
  · cases h

end Json

theorem readPayload_sized {payload : String} {doc : Json} (h : readPayload payload = .ok doc) :
    doc.Sized Json.depthLimit := by
  unfold readPayload at h
  split at h
  · cases h
    exact .of_scalar rfl nofun
  · split at h
    · rename_i raw hread
      cases h
      exact .unify raw _ (Json.read_sized hread)
    · cases h

end Collate
