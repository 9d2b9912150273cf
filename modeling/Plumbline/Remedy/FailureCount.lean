/-
Counts of failures in the output of a test run.

A count is a number at the start of a word, one blank, and the word `failed`, `error` or `errors`.
Numbers that are not written in the digits `0` to `9`, or need more than 64 bits, do not count.  Their
sum is taken without a bound.
-/
import Plumbline.Text.Decimal
import Plumbline.Text.Letter
import Plumbline.Text.Slice

namespace Plumbline.FailureCount

/-- Does the text start with the word `word`? -/
def startsWithWord (word cs : List Char) : Bool :=
  match Text.stripPrefix? word cs with
  | some (c :: _) => !isWordChar c
  | some [] => true
  | none => false

def failureWords : List (List Char) := ["failed".toList, "errors".toList, "error".toList]

/-- The value of a number that counts. -/
def number? (digits : List Char) : Option Nat :=
  if digits.all Char.isDigit then
    let n := Decimal.digitsValue digits
    if n < Decimal.wordBound then some n else none
  else none

/-- The count that the text starts with. -/
def countAt? (cs : List Char) : Option Nat :=
  let digits := cs.takeWhile isDecimalDigit
  if digits.isEmpty then none
  else match cs.dropWhile isDecimalDigit with
    | ' ' :: rest => if failureWords.any (startsWithWord · rest) then number? digits else none
    | _ => none

/-- All counts of a text; `inWord` says whether a word character stands before it. -/
def counts (inWord : Bool) : List Char → List Nat
  | [] => []
  | c :: cs =>
    let rest := counts (isWordChar c) cs
    if inWord then rest else (countAt? (c :: cs)).toList ++ rest

/-- The sum of all counts, if there is one. -/
def total? (cs : List Char) : Option Nat :=
  match counts false cs with
  | [] => none
  | ns => some (ns.foldr (· + ·) 0)

end Plumbline.FailureCount
