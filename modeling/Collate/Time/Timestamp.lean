import Collate.Time.Date

/-!
Points in time and their text. A point is a count of seconds from 1970 and a
part of a second, which reaches two seconds inside a leap second. The text is
in universal time, with as many groups of three decimals as the part of a
second needs.
-/

namespace Collate.Time

structure Timestamp where
  seconds : Int
  /-- Billionths of a second, below two billion. -/
  nanos : Nat
  deriving DecidableEq, Repr

namespace Timestamp

def nanosPerSecond : Nat := 1000000000

def secondsPerDay : Int := 86400

def ofMillis (millis : Int) : Timestamp :=
  ⟨millis / 1000, (millis % 1000).toNat * 1000000⟩

def toMillis (t : Timestamp) : Int :=
  t.seconds * 1000 + (t.nanos / 1000000 : Nat)

/-- Whole milliseconds from one point to another, rounded toward zero. -/
def millisBetween (start finish : Timestamp) : Int :=
  let nanos := (finish.seconds - start.seconds) * nanosPerSecond + finish.nanos - start.nanos
  nanos.tdiv 1000000

def padded (width n : Nat) : String :=
  let digits := Nat.toDigits 10 n
  String.ofList (List.replicate (width - digits.length) '0' ++ digits)

/-- A year in four digits. One that has more, or lies before year zero, has a
sign. -/
def yearText (year : Int) : String :=
  if 0 ≤ year && year ≤ 9999 then padded 4 year.toNat
  else (if year < 0 then "-" else "+") ++ padded 4 year.natAbs

def fractionText (nanos : Nat) : String :=
  if nanos = 0 then ""
  else if nanos % 1000000 = 0 then "." ++ padded 3 (nanos / 1000000)
  else if nanos % 1000 = 0 then "." ++ padded 6 (nanos / 1000)
  else "." ++ padded 9 nanos

def text (t : Timestamp) : String :=
  let date := Date.ofDays (t.seconds / secondsPerDay)
  let second := (t.seconds % secondsPerDay).toNat
  let leap := t.nanos / nanosPerSecond
  yearText date.year ++ "-" ++ padded 2 date.month.toNat ++ "-" ++ padded 2 date.day.toNat ++
    "T" ++ padded 2 (second / 3600) ++ ":" ++ padded 2 (second / 60 % 60) ++ ":" ++
    padded 2 (second % 60 + leap) ++ fractionText (t.nanos % nanosPerSecond) ++ "Z"

end Timestamp

end Collate.Time
