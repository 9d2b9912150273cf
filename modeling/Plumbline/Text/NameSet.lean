/-
Sets of names in their order.

Names are compared character by character.  The list of a set is sorted and free of repetitions,
so two sets with the same members are equal and are shown alike.
-/

namespace Plumbline

/-- A set of names, kept in increasing order. -/
structure NameSet where
  toList : List String := []
deriving Repr, DecidableEq, Inhabited

namespace NameSet

/-- Puts a name in its place in a sorted list, unless it is there. -/
def insertSorted (name : String) : List String → List String
  | [] => [name]
  | x :: xs =>
    if name < x then name :: x :: xs
    else if x < name then x :: insertSorted name xs
    else x :: xs

def empty : NameSet := {}

def insert (s : NameSet) (name : String) : NameSet := ⟨insertSorted name s.toList⟩

def contains (s : NameSet) (name : String) : Bool := s.toList.contains name

def ofList (names : List String) : NameSet := names.foldl insert empty

end NameSet

end Plumbline
