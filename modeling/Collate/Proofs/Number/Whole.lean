import Collate.Json.Writer

/-!
Whole numbers are written in decimal digits and read back digit by digit. As
long as 64 bits hold the number no digit is dropped, so the literal stands for
the number it was written from. The other way round, a literal never stands for
a whole number that 64 bits do not hold.
-/

namespace Collate.Number

/-- Whether 64 bits hold a whole number: from the least signed one to the
greatest unsigned one. -/
def IsWord (n : Int) : Prop :=
  -9223372036854775808 ≤ n ∧ n ≤ 18446744073709551615

instance (n : Int) : Decidable (IsWord n) := inferInstanceAs (Decidable (_ ∧ _))

inductive Literal.Takes : Literal → List Char → Literal → Prop
  | nil (l : Literal) : Takes l [] l
  | cons {l next last : Literal} {c : Char} {rest : List Char} :
      l.feed c = .more next → Takes next rest last → Takes l (c :: rest) last

def Literal.ofDigits (negative : Bool) (n : Nat) : Literal :=
  ⟨negative, .whole, n, 0, false, 0⟩

/-- What may come after a value inside a container. -/
def Ends (c : Char) : Prop := c = ',' ∨ c = ']' ∨ c = '\x7d'

namespace Literal

variable {l next last : Literal} {c : Char} {d n : Nat}

theorem Takes.append {first second : List Char} {middle : Literal} (h : Takes l first middle)
    (h' : Takes middle second last) : Takes l (first ++ second) last := by
  induction h with
  | nil => exact h'
  | cons hfeed _ ih => exact .cons hfeed (ih h')

theorem digit?_digitChar (hd : d < 10) : digit? (Nat.digitChar d) = some d := by
  have hall : ∀ d < 10, digit? (Nat.digitChar d) = some d := by decide
  exact hall d hd

theorem feed_digit (negative : Bool) (hd : d < 10) (hfits : n * 10 + d ≤ maxWord) :
    (ofDigits negative n).feed (Nat.digitChar d) = .more (ofDigits negative (n * 10 + d)) := by
  simp [feed, ofDigits, digit?_digitChar hd, append?, hfits]

/-- The first digit opens a literal, and the others are taken by it. -/
theorem takes_digits (hpos : 0 < n) (hfits : n ≤ maxWord) : ∃ d rest, 0 < d ∧ d < 10 ∧
    digitsOf n = Nat.digitChar d :: rest ∧
      ∀ negative, (ofDigits negative d).Takes rest (ofDigits negative n) := by
  induction n using Nat.strongRecOn with
  | ind n ih =>
    by_cases hlast : n < 10
    · exact ⟨n, [], hpos, hlast, Nat.toDigits_of_lt_base hlast, fun _ => .nil _⟩
    · have hten : 10 ≤ n := by omega
      obtain ⟨d, rest, hd, hd', hdigits, htakes⟩ :=
        ih (n / 10) (by omega) (by omega) (by omega)
      refine ⟨d, rest ++ [Nat.digitChar (n % 10)], hd, hd', ?_, fun negative => ?_⟩
      · rw [digitsOf, Nat.toDigits_of_base_le (by decide) hten, ← digitsOf, hdigits]
        rfl
      · have hdigit := feed_digit (n := n / 10) negative (Nat.mod_lt n (by decide))
          (by omega : n / 10 * 10 + n % 10 ≤ maxWord)
        rw [show n / 10 * 10 + n % 10 = n by omega] at hdigit
        exact (htakes negative).append (.cons hdigit (.nil _))

theorem start?_digit (hpos : 0 < d) (hd : d < 10) :
    start? (Nat.digitChar d) = some (ofDigits false d) := by
  have hall : ∀ d < 10, 0 < d → start? (Nat.digitChar d) = some (ofDigits false d) := by decide
  exact hall d hd hpos

theorem feed_first (hpos : 0 < d) (hd : d < 10) :
    (⟨true, .sign, 0, 0, false, 0⟩ : Literal).feed (Nat.digitChar d) =
      .more (ofDigits true d) := by
  obtain ⟨k, rfl⟩ : ∃ k, d = k + 1 := ⟨d - 1, by omega⟩
  simp [feed, digit?_digitChar hd, ofDigits]

/-- A literal that may end before what comes after a value, and what it then
stands for. -/
structure Stands (l : Literal) (value : Number) : Prop where
  complete : l.complete = true
  value : l.value? = some value
  ends : ∀ c, Ends c → l.feed c = .ended

theorem stands_zero : (⟨false, .zero, 0, 0, false, 0⟩ : Literal).Stands (.integer 0) := by
  refine ⟨rfl, rfl, ?_⟩
  rintro c (rfl | rfl | rfl) <;> rfl

theorem stands_ofDigits {negative : Bool} {value : Number}
    (h : ofWhole? negative n = some value) : (ofDigits negative n).Stands value := by
  refine ⟨rfl, h, ?_⟩
  rintro c (rfl | rfl | rfl) <;> rfl

end Literal

/-- The text of a whole number that 64 bits hold opens a literal which takes the
rest of the text and then stands for the number. -/
theorem text_integer {n : Int} (h : IsWord n) : ∃ c rest first last,
    (Number.integer n).text = c :: rest ∧ Literal.start? c = some first ∧
      first.Takes rest last ∧ last.Stands (.integer n) := by
  obtain ⟨hleast, hgreatest⟩ := h
  rcases Int.lt_trichotomy n 0 with hneg | rfl | hpos
  · obtain ⟨d, rest, hd, hd', hdigits, htakes⟩ :=
      Literal.takes_digits (n := n.natAbs) (by omega) (by simp only [maxWord]; omega)
    refine ⟨'-', Nat.digitChar d :: rest, _, _, ?_, rfl,
      .cons (Literal.feed_first hd hd') (htakes true), Literal.stands_ofDigits ?_⟩
    · simp [text, hneg, hdigits]
    · have hne : ¬ (n.natAbs == 0) = true := by simp [Int.ne_of_lt hneg]
      have hfits : n.natAbs ≤ Nat.pow 2 63 := by
        change n.natAbs ≤ 9223372036854775808
        omega
      have hback : -(n.natAbs : Int) = n := by omega
      rw [ofWhole?, if_pos rfl, if_neg hne, if_pos hfits, hback]
  · exact ⟨'0', [], _, _, rfl, rfl, .nil _, Literal.stands_zero⟩
  · obtain ⟨d, rest, hd, hd', hdigits, htakes⟩ :=
      Literal.takes_digits (n := n.natAbs) (by omega) (by simp only [maxWord]; omega)
    refine ⟨Nat.digitChar d, rest, _, _, ?_, Literal.start?_digit hd hd', htakes false,
      Literal.stands_ofDigits ?_⟩
    · simp [text, Int.not_lt.mpr (Int.le_of_lt hpos), hdigits]
    · have hback : (n.natAbs : Int) = n := by omega
      rw [ofWhole?, if_neg Bool.false_ne_true, hback]

/-! What literals stand for. -/

namespace Literal

variable {l next : Literal} {c : Char}

theorem digit?_le {d : Nat} (h : digit? c = some d) : d ≤ 9 := by
  unfold digit? at h
  split at h
  · rename_i hdigit
    have hle : c.toNat ≤ 57 := by
      simp only [Bool.and_eq_true, decide_eq_true_eq] at hdigit
      exact hdigit.2
    cases h
    omega
  · cases h

theorem start?_bounded (h : start? c = some l) : l.significand ≤ maxWord := by
  unfold start? at h
  split at h
  · cases h
    exact Nat.zero_le _
  · split at h
    · cases h
      exact Nat.zero_le _
    · rename_i d _ hd
      cases h
      exact Nat.le_trans (digit?_le hd) (by decide)
    · cases h

theorem append?_bounded {d m : Nat} (h : l.append? d = some m) : m ≤ maxWord := by
  simp only [append?] at h
  split at h
  · rename_i hfits
    cases h
    exact hfits
  · cases h

theorem afterWhole_more (h : l.afterWhole c = .more next) : next.significand = l.significand := by
  unfold afterWhole at h
  split at h
  · cases h
    rfl
  · split at h
    · cases h
      rfl
    · cases h

theorem afterFraction_more (h : l.afterFraction c = .more next) :
    next.significand = l.significand := by
  unfold afterFraction at h
  split at h
  · cases h
    rfl
  · cases h

theorem fractionDigit_more {d : Nat} (hl : l.significand ≤ maxWord)
    (h : l.fractionDigit d = .more next) : next.significand ≤ maxWord := by
  unfold fractionDigit at h
  split at h
  · rename_i m hm
    cases h
    exact append?_bounded hm
  · cases h
    exact hl

theorem exponentDigit_more {d : Nat} (h : l.exponentDigit d = .more next) :
    next.significand = l.significand := by
  simp only [exponentDigit] at h
  split at h
  · cases h
    rfl
  · split at h
    · cases h
    · cases h
      rfl

/-- The digits that are kept fit in 64 bits. -/
theorem feed_bounded (hl : l.significand ≤ maxWord) (h : l.feed c = .more next) :
    next.significand ≤ maxWord := by
  unfold feed at h
  split at h
  case h_1 =>
    cases h
    exact hl
  case h_2 hd =>
    cases h
    exact Nat.le_trans (digit?_le hd) (by decide)
  case h_3 => cases h
  case h_4 => cases h
  case h_5 => exact afterWhole_more h ▸ hl
  case h_6 =>
    split at h
    · rename_i m hm
      cases h
      exact append?_bounded hm
    · cases h
      exact hl
  case h_7 => exact afterWhole_more h ▸ hl
  case h_8 =>
    cases h
    exact hl
  case h_9 => exact afterWhole_more h ▸ hl
  case h_10 => exact fractionDigit_more hl h
  case h_11 => cases h
  case h_12 => exact fractionDigit_more hl h
  case h_13 => exact afterFraction_more h ▸ hl
  case h_14 =>
    cases h
    exact hl
  case h_15 => exact afterFraction_more h ▸ hl
  case h_16 => exact exponentDigit_more h ▸ hl
  case h_17 =>
    split at h
    · cases h
      exact hl
    · split at h
      · cases h
        exact hl
      · cases h
  case h_18 => exact exponentDigit_more h ▸ hl
  case h_19 => cases h
  case h_20 => exact exponentDigit_more h ▸ hl
  case h_21 => cases h
  case h_22 =>
    cases h
    exact hl
  case h_23 => cases h

/-- Only whole numbers that 64 bits hold are read as such. -/
theorem value?_isWord {n : Int} (hl : l.significand ≤ maxWord)
    (h : l.value? = some (.integer n)) : IsWord n := by
  have hwhole : ∀ negative, ofWhole? negative l.significand = some (.integer n) → IsWord n := by
    intro negative h
    unfold ofWhole? at h
    split at h
    · split at h
      · simp at h
      · split at h
        · rename_i hfits
          have hfits : l.significand ≤ 2 ^ 63 := hfits
          simp only [Option.some.injEq, Number.integer.injEq] at h
          exact ⟨by omega, by omega⟩
        · simp at h
    · have hl : l.significand < 2 ^ 64 := Nat.lt_succ_of_le hl
      simp only [Option.some.injEq, Number.integer.injEq] at h
      exact ⟨by omega, by omega⟩
  unfold value? at h
  split at h
  case h_1 => exact hwhole _ h
  case h_2 => exact hwhole _ h
  case h_3 => exact hwhole _ h
  case h_4 => simp at h
  case h_5 => simp at h

end Literal

end Collate.Number
