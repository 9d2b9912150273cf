/-
Names of rules in configuration.

`ExcessiveTestDoubles`, `excessive_test_doubles` and `excessive-test-doubles` name the same rule:
a capital after a small letter starts a new part, and so do blanks and underscores.
-/
import Plumbline.Text.LetterCase

namespace Plumbline.RuleName

/-- The parts of a name after the character `before`, in small letters and joined by hyphens. -/
def hyphenate (before : Option Char) : List Char → List Char
  | [] => []
  | c :: cs =>
    let rest := hyphenate (some c) cs
    if isUpperCase c then
      if before.any isLowerCase then '-' :: lowerCase c ++ rest else lowerCase c ++ rest
    else if c = '_' ∨ c = ' ' then '-' :: rest
    else c :: rest

/-- The form under which a rule's name is looked up. -/
def normalize (name : String) : String := String.ofList (hyphenate none name.toList)

end Plumbline.RuleName
