/-
Texts of bytes.

Scripts, arguments and files are bytes that need not be well-formed text.  They are handled as lists
of characters below 256, one for each byte.
-/
import Plumbline.Text.Slice

namespace Plumbline.Shell

/-- One character for each byte. -/
def ofBytes (bytes : ByteArray) : List Char := bytes.toList.map fun b => Char.ofNat b.toNat

/-- The bytes of a text of bytes. -/
def toBytes (cs : List Char) : ByteArray := ⟨(cs.map fun c => UInt8.ofNat c.toNat).toArray⟩

/-- The bytes of a string. -/
def ofString (s : String) : List Char := ofBytes s.toUTF8

/-- The lines of a text, without their ends. -/
def linesOf (cs : List Char) : List (List Char) :=
  let parts := Text.split '\n' cs
  match parts.getLast? with
  | some [] => parts.dropLast
  | _ => parts

/-- Lines with their ends. -/
def ofLines (lines : List (List Char)) : List Char := (lines.map (· ++ ['\n'])).flatten

/-- The number that a text of decimal digits is, with a sign in front if there is one. -/
def number? (cs : List Char) : Option Int :=
  let digits? (ds : List Char) : Option Nat :=
    if ds.isEmpty || !ds.all Char.isDigit then none
    else some (ds.foldl (fun n d => n * 10 + (d.toNat - 48)) 0)
  match Text.trim cs with
  | '-' :: rest => (digits? rest).map fun n => -(n : Int)
  | '+' :: rest => (digits? rest).map fun n => (n : Int)
  | ds => (digits? ds).map fun n => (n : Int)

/-- A number in decimal digits. -/
def ofNumber (n : Int) : List Char :=
  match n with
  | .ofNat k => Nat.toDigits 10 k
  | .negSucc k => '-' :: Nat.toDigits 10 (k + 1)

end Plumbline.Shell
