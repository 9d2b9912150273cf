/-
Decimal numbers.

Two ways from digits to a float.  `nearest` gives the float that is nearest to the decimal.
`scaled` keeps as many digits as fit a word of 64 bits, turns that word into a float and scales it
by a power of ten; each of the two steps rounds, so the result may be a neighbour of the nearest
float.
-/

namespace Plumbline.Decimal

/-- The least natural number that does not fit 64 bits. -/
def wordBound : Nat := 0x10000000000000000

/-- The least natural number that does not fit 64 bits with a sign. -/
def signedBound : Nat := 0x8000000000000000

def digitValue (c : Char) : Nat := c.toNat - '0'.toNat

/-- The value of a run of decimal digits. -/
def digitsValue (cs : List Char) : Nat := cs.foldl (fun n c => 10 * n + digitValue c) 0

/-! ### The nearest float -/

/-- The float nearest to `digits · 10 ^ exponent`, with the sign. -/
def nearest (negative : Bool) (digits : Nat) (exponent : Int) : Float :=
  let x := if exponent < 0 then Float.ofScientific digits true exponent.natAbs
    else Float.ofScientific digits false exponent.natAbs
  if negative then -x else x

/-- Exponents beyond this many places are zero or too large whatever the digits. -/
def exponentBound : Nat := 100000

/-! ### Scaling a word -/

/-- Appends digits to a number as long as it fits a word; answers the number and the digits that
are left. -/
def takeDigits (n : Nat) : List Char → Nat × List Char
  | [] => (n, [])
  | c :: cs =>
    let m := 10 * n + digitValue c
    if m < wordBound then takeDigits m cs else (n, c :: cs)

/-- The greatest power of ten that is a float. -/
def maxPower : Nat := 308

def powerOfTen (n : Nat) : Float := Float.ofScientific 1 false n

/-- Divides by `10 ^ n`, by the greatest power at a time.  A word is zero after two such steps. -/
def divide : (steps : Nat) → Float → Nat → Float
  | 0, x, _ => x
  | steps + 1, x, n =>
    if n ≤ maxPower then x / powerOfTen n
    else if x == 0 then x
    else divide steps (x / powerOfTen maxPower) (n - maxPower)

/-- A word scaled by a power of ten, if that is finite. -/
def scale? (word : Nat) (exponent : Int) : Option Float :=
  let x := Float.ofNat word
  if exponent < 0 then some (divide 3 x exponent.natAbs)
  else if exponent.natAbs ≤ maxPower then
    let y := x * powerOfTen exponent.natAbs
    if y.isFinite then some y else none
  else if word = 0 then some x
  else none

/-- The float for digits before and after the point and a written exponent, if it is finite. -/
def scaled? (negative : Bool) (whole fraction : List Char) (exponent : Int) : Option Float :=
  let (word, dropped) := takeDigits 0 whole
  let (word, unread) := takeDigits word fraction
  let places : Int := (fraction.length : Int) - unread.length
  (scale? word (dropped.length - places + exponent)).map fun x => if negative then -x else x

end Plumbline.Decimal
