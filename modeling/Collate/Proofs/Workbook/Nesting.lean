import Collate.Proofs.Workbook.Markup
import Collate.Workbook.Attributes

/-!
Documents whose tags match. A document is one element with blanks around it, and inside
it every element is closed before the one around it. Behind an opening tag the events go
on to its own closing tag, and behind every tag that is met the characters of the
document can be cut.
-/

namespace Collate.Workbook

def Event.begins (name : String) : Event → Bool
  | .opened tag | .emptied tag => isNamed tag.name name
  | .closed _ | .text _ | .verbatim _ => false

/-- Where in a document one is: before its element, or inside the elements of some names,
innermost first. Without names left the element has ended. -/
inductive Depth where
  | before
  | inside (names : List (List Char))
  deriving DecidableEq, Repr

namespace Depth

def step : Depth → Event → Option Depth
  | .before, .opened tag => some (.inside [tag.name])
  | .before, .emptied _ => some (.inside [])
  | .inside (name :: outer), .opened tag => some (.inside (tag.name :: name :: outer))
  | .inside (name :: outer), .closed found =>
    if found = name then some (.inside outer) else none
  | .inside (name :: outer), .emptied _ | .inside (name :: outer), .text _
  | .inside (name :: outer), .verbatim _ => some (.inside (name :: outer))
  | .before, .text chars => if chars.all isMarkupSpace then some .before else none
  | .inside [], .text chars => if chars.all isMarkupSpace then some (.inside []) else none
  | _, _ => none

end Depth

/-- A document that is read without a fault and is one element with blanks around it. -/
structure Markup.WellFormed (m : Markup) : Prop where
  faultless : m.fault = none
  nested : m.events.foldlM Depth.step .before = some (.inside [])

/-- Inside an element of the name every element that is opened is closed again. -/
def Nested (name : List Char) (inner : List Event) : Prop :=
  inner.foldlM Depth.step (.inside [name]) = some (.inside [name])

variable {events : List Event} {name : List Char} {extra outer names : List (List Char)}

theorem foldlM_depth_cons {e : Event} {rest : List Event} {d : Depth} {last : Depth}
    (h : (e :: rest).foldlM Depth.step d = some last) :
    ∃ next, d.step e = some next ∧ rest.foldlM Depth.step next = some last := by
  rwa [List.foldlM_cons, Option.bind_eq_bind, Option.bind_eq_some_iff] at h

theorem Depth.step_opened {d next : Depth} {tag : Tag} (h : d.step (.opened tag) = some next) :
    ∃ outer, next = .inside (tag.name :: outer) := by
  match d, h with
  | .before, h => exact ⟨[], (Option.some.inj h).symm⟩
  | .inside (name :: outer), h => exact ⟨name :: outer, (Option.some.inj h).symm⟩

/-- An element that is open is closed by the first closing tag behind which fewer elements
are open than before it. -/
theorem exists_closed
    (h : events.foldlM Depth.step (.inside (extra ++ name :: outer)) = some (.inside [])) :
    ∃ inner more, events = inner ++ .closed name :: more ∧
      inner.foldlM Depth.step (.inside (extra ++ [name])) = some (.inside [name]) := by
  induction events generalizing extra with
  | nil => simp at h
  | cons e rest ih =>
    obtain ⟨next, hstep, hrest⟩ := foldlM_depth_cons h
    -- the event is met in the same elements, whatever is around them
    have hkept : ∀ extra', next = .inside (extra' ++ name :: outer) →
        (Depth.inside (extra ++ [name])).step e = some (.inside (extra' ++ [name])) →
        ∃ inner more, e :: rest = inner ++ .closed name :: more ∧
          inner.foldlM Depth.step (.inside (extra ++ [name])) = some (.inside [name]) := by
      rintro extra' rfl hstep'
      obtain ⟨inner, more, rfl, hinner⟩ := ih hrest
      refine ⟨e :: inner, more, rfl, ?_⟩
      rw [List.foldlM_cons, hstep']
      exact hinner
    cases extra with
    | nil =>
      cases e with
      | opened tag => exact hkept [tag.name] (by simpa [Depth.step] using hstep.symm) rfl
      | closed found =>
        obtain rfl : found = name := by
          by_contra hne
          simp [Depth.step, hne] at hstep
        exact ⟨[], rest, rfl, rfl⟩
      | _ => exact hkept [] (by simpa [Depth.step] using hstep.symm) rfl
    | cons first extra =>
      cases e with
      | opened tag =>
        exact hkept (tag.name :: first :: extra) (by simpa [Depth.step] using hstep.symm) rfl
      | closed found =>
        obtain rfl : found = first := by
          by_contra hne
          simp [Depth.step, hne] at hstep
        exact hkept extra (by simpa [Depth.step] using hstep.symm) (by simp [Depth.step])
      | _ => exact hkept (first :: extra) (by simpa [Depth.step] using hstep.symm) rfl

/-- Only elements that were open or begin among the events are closed among them. -/
theorem closed_of_nested {part : String} {last : Depth}
    (h : events.foldlM Depth.step (.inside names) = some last)
    (hnames : ∀ name ∈ names, isNamed name part = false)
    (hevents : ∀ e ∈ events, e.begins part = false) :
    ∀ found, .closed found ∈ events → isNamed found part = false := by
  induction events generalizing names with
  | nil => exact fun _ hmem => nomatch hmem
  | cons e rest ih =>
    obtain ⟨next, hstep, hrest⟩ := foldlM_depth_cons h
    obtain ⟨he, hbegins⟩ := List.forall_mem_cons.mp hevents
    have hnext : ∃ names', next = .inside names' ∧
        (∀ name ∈ names', isNamed name part = false) ∧
        ∀ found, e = .closed found → isNamed found part = false := by
      cases names with
      | nil =>
        cases e with
        | text chars =>
          simp only [Depth.step, Option.ite_none_right_eq_some, Option.some.injEq] at hstep
          exact ⟨[], hstep.2.symm, nofun, nofun⟩
        | _ => cases hstep
      | cons first outer =>
        obtain ⟨hfirst, houter⟩ := List.forall_mem_cons.mp hnames
        cases e with
        | opened tag =>
          exact ⟨_, (Option.some.inj hstep).symm, List.forall_mem_cons.mpr ⟨he, hnames⟩, nofun⟩
        | closed found =>
          simp only [Depth.step, Option.ite_none_right_eq_some, Option.some.injEq] at hstep
          obtain ⟨rfl, rfl⟩ := hstep
          exact ⟨outer, rfl, houter, fun _ heq => Event.closed.inj heq ▸ hfirst⟩
        | _ => exact ⟨_, (Option.some.inj hstep).symm, hnames, nofun⟩
    obtain ⟨names', rfl, hnames', hhere⟩ := hnext
    intro found hmem
    rcases List.mem_cons.mp hmem with heq | hmem
    · exact hhere found heq.symm
    · exact ih hrest hnames' hbegins found hmem

/-! Cutting a document behind a tag. -/

namespace Scanner

/-- When a tag is met, some characters have just been read behind which the reader is at text. -/
theorem exists_front {place : Place} {chars : List Char} {later earlier : List Event} {e : Event}
    (htag : ¬ e.IsData)
    (h : (chars.foldl step ⟨place, names, []⟩).finish.met = later ++ e :: earlier) :
    ∃ front rest names', chars = front ++ rest ∧
      front.foldl step ⟨place, names, []⟩ = ⟨.text [], names', e :: earlier⟩ := by
  induction chars generalizing place names earlier with
  | nil =>
    obtain ⟨pending, hpending⟩ := finish_met ⟨place, names, []⟩
    rw [List.foldl_nil, hpending, List.append_nil] at h
    exact absurd (flushed_isData pending e (h ▸ List.mem_append_right _ List.mem_cons_self)) htag
  | cons c rest ih =>
    obtain ⟨place', names', event?, hstep, hevent⟩ := @reports_step names place c
    have hstep : step ⟨place, names, []⟩ c = ⟨place', names', event?.toList ++ []⟩ := hstep []
    rw [List.foldl_cons, hstep] at h
    cases event? with
    | none =>
      obtain ⟨front, more, last, rfl, hfront⟩ := ih h
      exact ⟨c :: front, more, last, rfl, by rw [List.foldl_cons, hstep]; exact hfront⟩
    | some first =>
      rw [Option.toList_some, List.append_nil] at hstep h
      have hfirst : (⟨place', names', [first]⟩ : Scanner) =
          (⟨place', names', []⟩ : Scanner).preceded [first] := rfl
      rw [hfirst, foldl_preceded, finish_preceded] at h
      rcases List.eq_nil_or_concat earlier with rfl | ⟨earlier, last, rfl⟩
      · -- the tag is what this character completes
        obtain ⟨-, hsame⟩ := List.append_inj' h rfl
        obtain rfl : first = e := List.cons.inj hsame |>.1
        obtain rfl := (hevent first rfl).resolve_left htag
        exact ⟨[c], rest, names', rfl, hstep⟩
      · rw [List.concat_eq_append, ← List.cons_append, ← List.append_assoc] at h
        obtain ⟨hbefore, hsame⟩ := List.append_inj' h rfl
        obtain rfl : first = last := List.cons.inj hsame |>.1
        obtain ⟨front, more, names'', rfl, hfront⟩ := ih hbefore
        refine ⟨c :: front, more, names'', rfl, ?_⟩
        rw [List.foldl_cons, hstep, hfirst, foldl_preceded, hfront, List.concat_eq_append]
        rfl

end Scanner

/-- A document can be cut behind a tag that is met in it. -/
theorem Markup.exists_cut {document : List Char} {events more : List Event} {e : Event}
    (htag : ¬ e.IsData) (h : (Markup.read document).events = events ++ e :: more) :
    ∃ front rest names, document = front ++ rest ∧
      Scanner.scanned front = ⟨.text [], names, (events ++ [e]).reverse⟩ := by
  have hmet : (Scanner.scanned document).finish.met = more.reverse ++ e :: events.reverse := by
    have hreverse := congrArg List.reverse h
    simpa [Markup.read_eq, Scanner.markup] using hreverse
  have hlast : (events ++ [e]).reverse = e :: events.reverse := by simp
  rw [hlast]
  by_cases hmark : document.head? = some '\uFEFF'
  · obtain ⟨body, rfl⟩ := List.head?_eq_some_iff.mp hmark
    obtain ⟨front, rest, names, rfl, hfront⟩ := Scanner.exists_front htag hmet
    exact ⟨'\uFEFF' :: front, rest, names, rfl, hfront⟩
  · rw [Scanner.scanned_eq hmark] at hmet
    obtain ⟨front, rest, names, rfl, hfront⟩ := Scanner.exists_front htag hmet
    have hhead : front.head? ≠ some '\uFEFF' := fun h => hmark (by rw [List.head?_append, h]; rfl)
    exact ⟨front, rest, names, rfl, (Scanner.scanned_eq hhead).trans hfront⟩

end Collate.Workbook
