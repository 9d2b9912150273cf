/-
Points in time.

A time is the number of seconds since the start of 1970 and the nanoseconds of the current second.
A leap second counts as more nanoseconds of the second before it.  A time is written as a date, `T`,
the time of day in universal time and `Z`.  When it is read, numbers may have fewer digits, blanks
may stand around them, and any offset from universal time may follow.
-/
import Plumbline.Text.Decimal
import Plumbline.Text.Slice

namespace Plumbline

structure Timestamp where
  seconds : Int
  /-- Less than a billion, or less than two if a leap second follows the second. -/
  nanos : Nat := 0
deriving Repr, DecidableEq, Inhabited

namespace Timestamp

/-! ### The calendar -/

/-- Days from the start of 1970 to a date of the civil calendar. -/
def dayNumber (year : Int) (month day : Nat) : Int :=
  let y := if month ≤ 2 then year - 1 else year
  let era := Int.fdiv y 400
  let yearOfEra := y - era * 400
  let shifted : Int := (month + 9) % 12
  let dayOfYear := (153 * shifted + 2) / 5 + day - 1
  let dayOfEra := yearOfEra * 365 + yearOfEra / 4 - yearOfEra / 100 + dayOfYear
  era * 146097 + dayOfEra - 719468

/-- The date of the civil calendar that is so many days after the start of 1970. -/
def civilDate (days : Int) : Int × Nat × Nat :=
  let z := days + 719468
  let era := Int.fdiv z 146097
  let dayOfEra := z - era * 146097
  let yearOfEra := (dayOfEra - dayOfEra / 1460 + dayOfEra / 36524 - dayOfEra / 146096) / 365
  let dayOfYear := dayOfEra - (365 * yearOfEra + yearOfEra / 4 - yearOfEra / 100)
  let shifted := (5 * dayOfYear + 2) / 153
  let day := dayOfYear - (153 * shifted + 2) / 5 + 1
  let month := if shifted < 10 then shifted + 3 else shifted - 9
  let year := yearOfEra + era * 400 + (if month ≤ 2 then 1 else 0)
  (year, month.toNat, day.toNat)

def daysIn (year : Int) (month : Nat) : Nat :=
  if month = 2 then
    if (year % 4 = 0 ∧ year % 100 ≠ 0) ∨ year % 400 = 0 then 29 else 28
  else if [4, 6, 9, 11].contains month then 30
  else 31

/-! ### Writing -/

/-- Decimal digits, with zeros in front up to the width. -/
def padded (width n : Nat) : String :=
  let digits := Nat.toDigits 10 n
  String.ofList (List.replicate (width - digits.length) '0' ++ digits)

def yearText (year : Int) : String :=
  if 0 ≤ year ∧ year ≤ 9999 then padded 4 year.toNat
  else (if year < 0 then "-" else "+") ++ padded 4 year.natAbs

/-- Three, six or nine places, as few as are needed. -/
def fractionText (nanos : Nat) : String :=
  if nanos = 0 then ""
  else if nanos % 1000000 = 0 then "." ++ padded 3 (nanos / 1000000)
  else if nanos % 1000 = 0 then "." ++ padded 6 (nanos / 1000)
  else "." ++ padded 9 nanos

def nanosPerSecond : Nat := 1000000000

/-- Days since the start of 1970. -/
def days (t : Timestamp) : Int := Int.fdiv t.seconds 86400

def render (t : Timestamp) : String :=
  let second := (t.seconds - t.days * 86400).toNat
  let (year, month, day) := civilDate t.days
  yearText year ++ "-" ++ padded 2 month ++ "-" ++ padded 2 day ++ "T" ++
    padded 2 (second / 3600) ++ ":" ++ padded 2 (second / 60 % 60) ++ ":" ++
    padded 2 (second % 60 + t.nanos / nanosPerSecond) ++
    fractionText (t.nanos % nanosPerSecond) ++ "Z"

/-! ### Reading -/

/-- A number of one to `width` digits. -/
def digits? (width : Nat) (cs : List Char) : Option (Nat × List Char) :=
  let digits := (cs.take width).takeWhile Char.isDigit
  if digits.isEmpty then none else some (Decimal.digitsValue digits, cs.drop digits.length)

/-- A number of one to `width` digits after blanks. -/
def number? (width : Nat) (cs : List Char) : Option (Nat × List Char) :=
  digits? width (Text.trimStart cs)

/-- A year, which may have a sign. -/
def year? (cs : List Char) : Option (Int × List Char) :=
  match Text.trimStart cs with
  | '-' :: rest => (digits? rest.length rest).map fun (n, rest) => (-(n : Int), rest)
  | '+' :: rest => (digits? rest.length rest).map fun (n, rest) => ((n : Int), rest)
  | cs => (digits? 4 cs).map fun (n, rest) => ((n : Int), rest)

/-- The years that can be told. -/
def isYear (year : Int) : Bool := -262143 ≤ year && year ≤ 262142

/-- What follows blanks and the character `c`. -/
def after? (c : Char) (cs : List Char) : Option (List Char) :=
  match Text.trimStart cs with
  | d :: rest => if d = c then some rest else none
  | [] => none

/-- Nanoseconds after a point, if there is one. -/
def fraction? (cs : List Char) : Option (Nat × List Char) :=
  match cs with
  | '.' :: rest =>
    let digits := rest.takeWhile Char.isDigit
    if digits.isEmpty then none
    else
      let kept := digits.take 9
      some (Decimal.digitsValue kept * Nat.pow 10 (9 - kept.length), rest.dropWhile Char.isDigit)
  | _ => some (0, cs)

/-- Seconds that an offset from universal time is worth. -/
def offset? (cs : List Char) : Option (Int × List Char) :=
  match cs with
  | 'Z' :: rest => some (0, rest)
  | 'z' :: rest => some (0, rest)
  | c :: a :: b :: rest =>
    let isUtc := [c, a, b].map Char.toUpper == ['U', 'T', 'C']
    if isUtc then some (0, rest)
    else if (c = '+' ∨ c = '-' ∨ c.toNat = 0x2212) ∧ a.isDigit ∧ b.isDigit then
      match rest.dropWhile fun d => d == ':' || Text.isWhiteSpace d with
      | m :: n :: rest =>
        if '0' ≤ m ∧ m ≤ '5' ∧ n.isDigit then
          let size := Decimal.digitsValue [a, b] * 3600 + Decimal.digitsValue [m, n] * 60
          if size < 86400 then some (if c = '+' then (size : Int) else -(size : Int), rest) else none
        else none
      | _ => none
    else none
  | _ => none

def parse? (s : String) : Option Timestamp := do
  let (year, cs) ← year? s.toList
  let cs ← after? '-' cs
  let (month, cs) ← number? 2 cs
  let cs ← after? '-' cs
  let (day, cs) ← number? 2 cs
  let cs ← match cs with
    | c :: rest => if c = 'T' ∨ c = 't' ∨ c = ' ' then some rest else none
    | [] => none
  let (hour, cs) ← number? 2 cs
  let cs ← after? ':' cs
  let (minute, cs) ← number? 2 cs
  let cs ← after? ':' cs
  let (second, cs) ← number? 2 cs
  let (nanos, cs) ← fraction? cs
  let (offset, cs) ← offset? (Text.trimStart cs)
  if !(Text.trimStart cs).isEmpty then none
  else if isYear year ∧ 1 ≤ month ∧ month ≤ 12 ∧ 1 ≤ day ∧ day ≤ daysIn year month ∧ hour ≤ 23 ∧
      minute ≤ 59 ∧ second ≤ 60 then
    let time : Int := hour * 3600 + minute * 60 + min second 59
    let t : Timestamp :=
      { seconds := dayNumber year month day * 86400 + time - offset
        nanos := if second = 60 then nanos + nanosPerSecond else nanos }
    if isYear (civilDate t.days).1 then some t else none
  else none

end Timestamp

end Plumbline
