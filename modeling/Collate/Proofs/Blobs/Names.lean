import Collate.Blobs
import Mathlib.Data.List.Basic

/-!
The names that are tried for a file. The first is the name itself; a later one has its
number before the last point of the name, or at the end when there is no point but perhaps
a leading one. A numbered name names a file if the name does.
-/

namespace Collate

namespace Path

/-- What comes before and after the last point of a name, that point not being the first
character. -/
structure Pointed (name stem extension : String) : Prop where
  joined : name = stem ++ "." ++ extension
  stem : stem ≠ ""
  extension : '.' ∉ extension.toList

theorem splitName_of_pointed {name stem extension : String} (h : Pointed name stem extension) :
    splitName name = ⟨stem, some extension⟩ := by
  have hplain : ∀ c ∈ extension.toList.reverse, (c != '.') = true := by
    intro c hc
    rw [bne_iff_ne]
    rintro rfl
    exact h.extension (List.mem_reverse.mp hc)
  have hreversed : name.toList.reverse =
      extension.toList.reverse ++ '.' :: stem.toList.reverse := by
    rw [h.joined]
    simp
  have hdropped : name.toList.reverse.dropWhile (· != '.') = '.' :: stem.toList.reverse := by
    rw [hreversed, List.dropWhile_append_of_pos hplain]
    rfl
  have htaken : name.toList.reverse.takeWhile (· != '.') = extension.toList.reverse := by
    rw [hreversed, List.takeWhile_append_of_pos hplain]
    exact List.append_nil _
  obtain ⟨c, rest, hstem⟩ : ∃ c rest, stem.toList.reverse = c :: rest :=
    List.exists_cons_of_ne_nil (by simpa using h.stem)
  simp only [splitName, hdropped, htaken, hstem, List.reverse_reverse, String.ofList_toList]
  rw [← hstem, List.reverse_reverse, String.ofList_toList]

theorem splitName_of_plain {name : String} (h : '.' ∉ name.toList.tail) :
    splitName name = ⟨name, none⟩ := by
  cases hname : name.toList with
  | nil => simp only [splitName, hname, List.reverse_nil, List.dropWhile_nil]
  | cons c rest =>
    have hplain : ∀ x ∈ rest.reverse, (x != '.') = true := by
      intro x hx
      rw [bne_iff_ne]
      rintro rfl
      rw [hname] at h
      exact h (List.mem_reverse.mp hx)
    have hdropped : name.toList.reverse.dropWhile (· != '.') = if c != '.' then [] else [c] := by
      rw [hname, List.reverse_cons, List.dropWhile_append_of_pos hplain, List.dropWhile_cons]
      rfl
    rw [splitName, hdropped]
    cases c != '.' <;> rfl

theorem exists_pointed {name : String} (h : '.' ∈ name.toList.tail) :
    ∃ stem extension, Pointed name stem extension := by
  have hmem : '.' ∈ name.toList.reverse := List.mem_reverse.mpr (List.mem_of_mem_tail h)
  obtain ⟨after, before, hsplit, hlast⟩ := List.eq_append_cons_of_mem hmem
  have hname : name.toList = before.reverse ++ '.' :: after.reverse := by
    rw [← List.reverse_reverse (name.toList), hsplit]
    simp
  refine ⟨String.ofList before.reverse, String.ofList after.reverse, ?_, ?_, ?_⟩
  · apply String.toList_injective
    simp [hname]
  · intro hstem
    rw [String.ofList_eq_empty_iff] at hstem
    rw [hname, hstem] at h
    exact hlast (List.mem_reverse.mp h)
  · rw [String.toList_ofList, List.mem_reverse]
    exact hlast

end Path

namespace Blobs

variable {filename name : String} {n : Nat}

/-- A text that names a file inside a directory. -/
structure NamesFile (name : String) : Prop where
  named : name ≠ ""
  notHere : name ≠ "."
  notUp : name ≠ Path.up
  noSlash : '/' ∉ name.toList
  noBackslash : '\\' ∉ name.toList

theorem isFileName_iff : isFileName name = true ↔ NamesFile name := by
  simp only [isFileName, Bool.and_eq_true, bne_iff_ne, List.all_eq_true, ne_eq]
  constructor
  · rintro ⟨⟨⟨hnamed, hhere⟩, hup⟩, hplain⟩
    exact ⟨hnamed, hhere, hup, fun h => (hplain _ h).1 rfl, fun h => (hplain _ h).2 rfl⟩
  · intro h
    refine ⟨⟨⟨h.named, h.notHere⟩, h.notUp⟩, fun c hc => ⟨?_, ?_⟩⟩
    · rintro rfl
      exact h.noSlash hc
    · rintro rfl
      exact h.noBackslash hc

/-- The nth name that is tried for a file. -/
inductive NthName (filename : String) : Nat → String → Prop
  | itself : NthName filename 1 filename
  | numbered {n : Nat} {stem extension : String} (hn : 2 ≤ n)
      (h : Path.Pointed filename stem extension) :
      NthName filename n (stem ++ "_" ++ toString n ++ "." ++ extension)
  | numberedAtEnd {n : Nat} (hn : 2 ≤ n) (h : '.' ∉ filename.toList.tail) :
      NthName filename n (filename ++ "_" ++ toString n)

theorem NthName.one_le (h : NthName filename n name) : 1 ≤ n := by
  cases h <;> omega

theorem candidate_of_le (hn : 2 ≤ n) : candidate filename n =
    { Path.splitName filename with
      stem := (Path.splitName filename).stem ++ "_" ++ toString n }.name := by
  unfold candidate
  rw [if_neg (by omega)]
  rfl

theorem NthName.eq_candidate (h : NthName filename n name) : name = candidate filename n := by
  cases h with
  | itself => rfl
  | numbered hn h =>
    rw [candidate_of_le hn, Path.splitName_of_pointed h]
    rfl
  | numberedAtEnd hn h =>
    rw [candidate_of_le hn, Path.splitName_of_plain h]
    rfl

theorem nthName_candidate (filename : String) (hn : 1 ≤ n) :
    NthName filename n (candidate filename n) := by
  rcases Nat.eq_or_lt_of_le hn with rfl | hn
  · exact .itself
  · by_cases hpoint : '.' ∈ filename.toList.tail
    · obtain ⟨stem, extension, h⟩ := Path.exists_pointed hpoint
      have hname := NthName.numbered hn h
      rwa [hname.eq_candidate] at hname
    · have hname := NthName.numberedAtEnd hn hpoint
      rwa [hname.eq_candidate] at hname

theorem not_mem_toString {c : Char} (hc : c.isDigit = false) : c ∉ (toString n).toList := by
  intro h
  change c ∈ n.repr.toList at h
  rw [Nat.toList_repr] at h
  rw [Nat.isDigit_of_mem_toDigits (by decide) (by decide) h] at hc
  cases hc

/-- A numbered name has no character that the name has not, but a line and digits. -/
theorem NthName.not_mem {c : Char} (h : NthName filename n name) (hc : c ∉ filename.toList)
    (hline : c ≠ '_') (hdigit : c.isDigit = false) : c ∉ name.toList := by
  have hnumber : c ∉ (toString n).toList := not_mem_toString hdigit
  cases h with
  | itself => exact hc
  | numbered _ h =>
    rw [h.joined] at hc
    simp_all
  | numberedAtEnd => simp_all

theorem NthName.namesFile (h : NthName filename n name) (hfile : NamesFile filename) :
    NamesFile name := by
  have hslash := h.not_mem hfile.noSlash (by decide) rfl
  have hbackslash := h.not_mem hfile.noBackslash (by decide) rfl
  -- a numbered name has a line, which the names that are no names have not
  have hnumbered : '_' ∈ name.toList → NamesFile name := by
    intro hline
    refine ⟨?_, ?_, ?_, hslash, hbackslash⟩ <;>
    · rintro rfl
      revert hline
      decide
  cases h with
  | itself => exact hfile
  | numbered => exact hnumbered (by simp)
  | numberedAtEnd => exact hnumbered (by simp)

end Blobs

end Collate
