/-
Bytes and text.

Well-formed text is decoded as it is.  In other bytes each longest start of a character that is cut
short, and each byte that starts none, stands for one replacement character.
-/

namespace Plumbline.Utf8

def replacementChar : Char := Char.ofNat 0xFFFD

/-- Length of the character that starts with a byte, and the range of its second byte. -/
def shape? (b : UInt8) : Option (Nat × Nat × Nat) :=
  let n := b.toNat
  if n < 0x80 then some (1, 0, 0)
  else if 0xC2 ≤ n ∧ n ≤ 0xDF then some (2, 0x80, 0xBF)
  else if n = 0xE0 then some (3, 0xA0, 0xBF)
  else if n = 0xED then some (3, 0x80, 0x9F)
  else if 0xE1 ≤ n ∧ n ≤ 0xEF then some (3, 0x80, 0xBF)
  else if n = 0xF0 then some (4, 0x90, 0xBF)
  else if 0xF1 ≤ n ∧ n ≤ 0xF3 then some (4, 0x80, 0xBF)
  else if n = 0xF4 then some (4, 0x80, 0x8F)
  else none

/-- How many of the next bytes continue a character: at most `more`, the first of them between
`low` and `high`. -/
def continued (more low high : Nat) : List UInt8 → Nat
  | [] => 0
  | b :: rest =>
    match more with
    | 0 => 0
    | k + 1 => if low ≤ b.toNat ∧ b.toNat ≤ high then 1 + continued k 0x80 0xBF rest else 0

/-- The code point of a whole character. -/
def codePoint : List UInt8 → Nat
  | [] => 0
  | b :: rest =>
    let first := match rest.length with
      | 0 => b.toNat
      | 1 => b.toNat % 0x20
      | 2 => b.toNat % 0x10
      | _ => b.toNat % 0x08
    rest.foldl (fun n c => n * 64 + c.toNat % 64) first

/-- Decodes `fuel` characters at most. -/
def decodeLossy : (fuel : Nat) → List UInt8 → List Char
  | 0, _ => []
  | _, [] => []
  | fuel + 1, b :: rest =>
    match shape? b with
    | none => replacementChar :: decodeLossy fuel rest
    | some (size, low, high) =>
      let got := continued (size - 1) low high rest
      if got = size - 1 then
        Char.ofNat (codePoint (b :: rest.take got)) :: decodeLossy fuel (rest.drop got)
      else replacementChar :: decodeLossy fuel (rest.drop got)

/-- The text of some bytes. -/
def textOf (bytes : List UInt8) : String := String.ofList (decodeLossy bytes.length bytes)

end Plumbline.Utf8
