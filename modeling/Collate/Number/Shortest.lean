import Collate.Number.Binary64

/-!
Shortest decimals. A double is written with the fewest digits that still read
back as the same double; of several such digit strings the one nearest to the
exact value is taken, and of two equally near ones the even one. The digits are
found on the decimal grids of one digit, two digits and so on: on each grid
only the two neighbours of the value need to be looked at.
-/

namespace Collate.Number

/-- A decimal `digits * 10 ^ exponent`. -/
structure Decimal where
  digits : Nat
  exponent : Int
  deriving DecidableEq, Repr

/-- The factors by which `10 ^ e` multiplies a numerator and a denominator. -/
def powerOfTen (e : Int) : Nat × Nat :=
  if 0 ≤ e then (Nat.pow 10 e.toNat, 1) else (1, Nat.pow 10 (-e).toNat)

/-- Whether `10 ^ e ≤ num / den`. -/
def reaches (num den : Nat) (e : Int) : Bool :=
  let (up, down) := powerOfTen e
  den * up ≤ num * down

/-- Moves an exponent up while the next power of ten still fits. -/
def climb (num den : Nat) : Nat → Int → Int
  | 0, e => e
  | steps + 1, e => if reaches num den (e + 1) then climb num den steps (e + 1) else e

def leadingExponent (num den : Nat) : Int :=
  let bits : Int := (num.log2 : Int) - den.log2 - 1
  climb num den 4 ((bits * 30103).fdiv 100000 - 1)

/-- The reals that round to a double, scaled by four times its denominator:
`low`, `value` and `high` over `den`, the ends belonging to it or not. -/
structure Interval where
  low : Nat
  value : Nat
  high : Nat
  den : Nat
  closed : Bool

/-- The rounding interval of a positive double. Below a power of two the next
double is only half as far away. -/
def intervalOf (x : Magnitude) : Interval :=
  let (up, down) := Magnitude.powerOfTwo x.exponent
  let below := if x.mantissa == Nat.pow 2 52 && -1074 < x.exponent then 1 else 2
  { low := (4 * x.mantissa - below) * up
    value := 4 * x.mantissa * up
    high := (4 * x.mantissa + 2) * up
    den := 4 * down
    closed := x.mantissa % 2 == 0 }

def Interval.holds (i : Interval) (d : Decimal) : Bool :=
  let (up, down) := powerOfTen d.exponent
  let scaled := d.digits * up * i.den
  if i.closed then i.low * down ≤ scaled && scaled ≤ i.high * down
  else i.low * down < scaled && scaled < i.high * down

/-- The neighbour of the value on the grid of `10 ^ e` that reads back, if one
does; of two the nearer, of two equally near the even one. -/
def Interval.nearest? (i : Interval) (e : Int) : Option Decimal :=
  let (up, down) := powerOfTen e
  let step := i.den * up
  let count := i.value * down / step
  let rest := i.value * down % step
  let low : Decimal := ⟨count, e⟩
  let high : Decimal := ⟨count + 1, e⟩
  match i.holds low, i.holds high with
  | true, true =>
    if 2 * rest < step then some low
    else if step < 2 * rest then some high
    else if count % 2 == 0 then some low else some high
  | true, false => some low
  | false, true => some high
  | false, false => none

/-- Tries the grids of ever more digits, the first having its unit at
`10 ^ e`. -/
def Interval.search (i : Interval) : Nat → Int → Decimal
  | 0, e => ⟨0, e⟩
  | grids + 1, e =>
    match i.nearest? e with
    | some d => d
    | none => i.search grids (e - 1)

def Decimal.strip : Nat → Decimal → Decimal
  | 0, d => d
  | count + 1, d =>
    if d.digits % 10 == 0 then Decimal.strip count ⟨d.digits / 10, d.exponent + 1⟩ else d

/-- The shortest decimal of a positive double. Seventeen digits always
suffice. -/
def shortest (x : Magnitude) : Decimal :=
  let i := intervalOf x
  (i.search 18 (leadingExponent i.value i.den)).strip 20

/-- How a decimal is laid out: which exponents of the leading digit are written
positionally. -/
structure Layout where
  least : Int
  greatest : Int

/-- Numbers in JSON text are positional from `1e-5` up to `1e15`. -/
def jsonLayout : Layout := ⟨-5, 15⟩

def digitsOf (n : Nat) : List Char :=
  Nat.toDigits 10 n

/-- A decimal with a fraction, zeros filled in on either side. -/
def positional (ds : List Char) (lead : Int) : List Char :=
  if lead < 0 then
    "0.".toList ++ List.replicate (-lead - 1).toNat '0' ++ ds
  else
    let whole := lead.toNat + 1
    if whole < ds.length then ds.take whole ++ ['.'] ++ ds.drop whole
    else ds ++ List.replicate (whole - ds.length) '0' ++ ".0".toList

/-- A decimal with one leading digit and an exponent, which always has a
sign. -/
def scientific (ds : List Char) (lead : Int) : List Char :=
  let fraction := match ds.drop 1 with
    | [] => []
    | rest => '.' :: rest
  let sign := if lead < 0 then '-' else '+'
  ds.take 1 ++ fraction ++ ['e', sign] ++ digitsOf lead.natAbs

def Layout.render (layout : Layout) (d : Decimal) : List Char :=
  let ds := digitsOf d.digits
  let lead := d.exponent + (ds.length : Int) - 1
  if layout.least ≤ lead && lead ≤ layout.greatest then positional ds lead
  else scientific ds lead

/-- The text of a double: `0.0` and `-0.0` for the zeros. -/
def Layout.text (layout : Layout) (x : Binary64) : List Char :=
  let size :=
    if x.size.mantissa == 0 then "0.0".toList
    else layout.render (shortest x.size)
  if x.negative then '-' :: size else size

end Collate.Number
