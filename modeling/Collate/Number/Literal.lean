import Collate.Number.Binary64

/-!
Number literals, read one character at a time. A literal without fraction and
exponent is a whole number as long as it fits in 64 bits; anything else is a
double. The digits of a double are gathered into a significand of at most
64 bits, further digits only moving the decimal point, and the significand is
then multiplied or divided by a power of ten with one rounding per step.
-/

namespace Collate

inductive Number where
  | integer (value : Int)
  | real (value : Binary64)
  deriving DecidableEq, Repr

namespace Number

/-- The greatest unsigned 64-bit number. -/
def maxWord : Nat := 18446744073709551615

/-- The greatest decimal exponent that is still counted. -/
def maxPower : Nat := 2147483647

/-- How far into a literal the reader is. -/
inductive Phase where
  /-- After the minus sign. -/
  | sign
  /-- After a single leading zero. -/
  | zero
  /-- Inside the whole part, every digit kept. -/
  | whole
  /-- Inside the whole part, digits no longer fitting. -/
  | wholeDropped
  /-- After the decimal point. -/
  | point
  /-- Inside the fraction, every digit kept. -/
  | fraction
  /-- Inside the fraction, digits no longer fitting. -/
  | fractionDropped
  /-- After the letter that announces an exponent. -/
  | exponentMark
  /-- After the sign of the exponent. -/
  | exponentSign
  /-- Inside the exponent. -/
  | exponent
  /-- Inside an exponent so large that the number is zero. -/
  | vanished
  deriving DecidableEq, Repr

/-- A literal as far as it has been read. -/
structure Literal where
  negative : Bool
  phase : Phase
  significand : Nat
  /-- The power of ten owed to dropped digits and to the fraction. -/
  scale : Int
  powerNegative : Bool
  power : Nat
  deriving DecidableEq, Repr

inductive Feed where
  | more (literal : Literal)
  | ended
  | invalid
  | tooLarge

def digit? (c : Char) : Option Nat :=
  if '0' ≤ c && c ≤ '9' then some (c.toNat - 48) else none

def Literal.start? (c : Char) : Option Literal :=
  if c == '-' then some ⟨true, .sign, 0, 0, false, 0⟩
  else match digit? c with
    | some 0 => some ⟨false, .zero, 0, 0, false, 0⟩
    | some d => some ⟨false, .whole, d, 0, false, 0⟩
    | none => none

def Literal.append? (l : Literal) (d : Nat) : Option Nat :=
  let n := l.significand * 10 + d
  if n ≤ maxWord then some n else none

def Literal.afterWhole (l : Literal) (c : Char) : Feed :=
  if c == '.' then .more { l with phase := .point }
  else if c == 'e' || c == 'E' then .more { l with phase := .exponentMark }
  else .ended

def Literal.afterFraction (l : Literal) (c : Char) : Feed :=
  if c == 'e' || c == 'E' then .more { l with phase := .exponentMark } else .ended

def Literal.fractionDigit (l : Literal) (d : Nat) : Feed :=
  match l.append? d with
  | some n => .more { l with phase := .fraction, significand := n, scale := l.scale - 1 }
  | none => .more { l with phase := .fractionDropped }

/-- A digit of the exponent. An exponent past counting makes the number zero,
or too large. -/
def Literal.exponentDigit (l : Literal) (d : Nat) : Feed :=
  let power := l.power * 10 + d
  if power ≤ maxPower then .more { l with phase := .exponent, power }
  else if l.significand != 0 && !l.powerNegative then .tooLarge
  else .more { l with phase := .vanished }

/-- Reads one more character. -/
def Literal.feed (l : Literal) (c : Char) : Feed :=
  match l.phase, digit? c with
  | .sign, some 0 => .more { l with phase := .zero }
  | .sign, some d => .more { l with phase := .whole, significand := d }
  | .sign, none => .invalid
  | .zero, some _ => .invalid
  | .zero, none => l.afterWhole c
  | .whole, some d =>
    match l.append? d with
    | some n => .more { l with significand := n }
    | none => .more { l with phase := .wholeDropped, scale := l.scale + 1 }
  | .whole, none => l.afterWhole c
  | .wholeDropped, some _ => .more { l with scale := l.scale + 1 }
  | .wholeDropped, none => l.afterWhole c
  | .point, some d => l.fractionDigit d
  | .point, none => .invalid
  | .fraction, some d => l.fractionDigit d
  | .fraction, none => l.afterFraction c
  | .fractionDropped, some _ => .more l
  | .fractionDropped, none => l.afterFraction c
  | .exponentMark, some d => l.exponentDigit d
  | .exponentMark, none =>
    if c == '+' then .more { l with phase := .exponentSign }
    else if c == '-' then .more { l with phase := .exponentSign, powerNegative := true }
    else .invalid
  | .exponentSign, some d => l.exponentDigit d
  | .exponentSign, none => .invalid
  | .exponent, some d => l.exponentDigit d
  | .exponent, none => .ended
  | .vanished, some _ => .more l
  | .vanished, none => .ended

/-- Whether the literal may end here. -/
def Literal.complete (l : Literal) : Bool :=
  match l.phase with
  | .sign | .point | .exponentMark | .exponentSign => false
  | _ => true

def tenTo (k : Nat) : Magnitude :=
  (Magnitude.round? (Nat.pow 10 k) 1).getD Magnitude.zero

/-- Divides by `10 ^ k`, in steps of at most `10 ^ 308`. -/
def scaleDown (x : Magnitude) (k : Nat) : Magnitude :=
  if k ≤ 308 then (x.div? (tenTo k)).getD Magnitude.zero
  else if x.mantissa == 0 then x
  else scaleDown ((x.div? (tenTo 308)).getD Magnitude.zero) (k - 308)
  termination_by k

/-- The double for a significand and a power of ten, or nothing when it is too
large. -/
def assemble? (significand : Nat) (exponent : Int) : Option Magnitude := do
  let x ← Magnitude.ofNat? significand
  if exponent < 0 then some (scaleDown x exponent.natAbs)
  else if exponent ≤ 308 then x.mul? (tenTo exponent.toNat)
  else if x.mantissa == 0 then some x
  else none

/-- The whole number of a literal without fraction and exponent. Minus zero and
numbers below the signed 64-bit range are doubles. -/
def ofWhole? (negative : Bool) (n : Nat) : Option Number :=
  if negative then
    if n == 0 then some (.real (Binary64.zero true))
    else if n ≤ Nat.pow 2 63 then some (.integer (-(n : Int)))
    else (Magnitude.ofNat? n).map fun size => .real ⟨true, size⟩
  else some (.integer n)

/-- The number of a complete literal, or nothing when it is too large. -/
def Literal.value? (l : Literal) : Option Number :=
  match l.phase with
  | .sign | .zero | .whole => ofWhole? l.negative l.significand
  | .vanished => some (.real (Binary64.zero l.negative))
  | _ =>
    let power : Int := if l.powerNegative then -(l.power : Int) else l.power
    (assemble? l.significand (l.scale + power)).map fun size => .real ⟨l.negative, size⟩

end Number

end Collate
