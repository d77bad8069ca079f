/-!
Double-precision numbers as exact data. A finite double is a sign, a whole
number below 2^53 and a power of two. Rounding takes a quotient of whole
numbers to the nearest double, a tie going to the even neighbour; products and
quotients of doubles are the exact results rounded once. Everything is whole
number arithmetic, so what a number reads as can be reasoned about.
-/

namespace Collate

/-- The size of a finite double, `mantissa * 2 ^ exponent`. A size as built by
`Magnitude.round?` has the least exponent that keeps the mantissa below
`2 ^ 53`, and none below -1074. -/
structure Magnitude where
  mantissa : Nat
  exponent : Int
  deriving DecidableEq, Repr

/-- A finite double. The sign is kept apart because zero has one too. -/
structure Binary64 where
  negative : Bool
  size : Magnitude
  deriving DecidableEq, Repr

namespace Magnitude

def zero : Magnitude := ⟨0, -1074⟩

/-- The quotient to the nearest whole number, a tie going to the even one. -/
def divideToEven (num den : Nat) : Nat :=
  let q := num / den
  let r := num % den
  if 2 * r < den then q
  else if den < 2 * r then q + 1
  else if q % 2 == 0 then q else q + 1

/-- The factors by which `2 ^ e` multiplies a numerator and a denominator. -/
def powerOfTwo (e : Int) : Nat × Nat :=
  if 0 ≤ e then (Nat.pow 2 e.toNat, 1) else (1, Nat.pow 2 (-e).toNat)

/-- The double nearest to `num / den`, or nothing when that is too large. -/
def round? (num den : Nat) : Option Magnitude :=
  if num == 0 then some zero
  else
    let guess : Int := (num.log2 : Int) - den.log2 - 52
    let fits (e : Int) : Bool :=
      let (up, down) := powerOfTwo e
      Nat.pow 2 52 * (den * up) ≤ num * down
    let e := max (-1074) (if fits guess then guess else guess - 1)
    let (up, down) := powerOfTwo e
    let m := divideToEven (num * down) (den * up)
    let (m, e) := if m == Nat.pow 2 53 then (Nat.pow 2 52, e + 1) else (m, e)
    if 971 < e then none else some ⟨m, e⟩

def quotient (x : Magnitude) : Nat × Nat :=
  let (up, down) := powerOfTwo x.exponent
  (x.mantissa * up, down)

/-- The rounded product, or nothing when it is too large. -/
def mul? (x y : Magnitude) : Option Magnitude :=
  let (a, b) := x.quotient
  let (c, d) := y.quotient
  round? (a * c) (b * d)

def div? (x y : Magnitude) : Option Magnitude :=
  let (a, b) := x.quotient
  let (c, d) := y.quotient
  round? (a * d) (b * c)

def ofNat? (n : Nat) : Option Magnitude :=
  round? n 1

end Magnitude

def Binary64.zero (negative : Bool) : Binary64 :=
  ⟨negative, Magnitude.zero⟩

end Collate
