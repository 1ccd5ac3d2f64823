/-!
# Things that count as one

Some values differ in form and yet count as one and the same, as a truth value and the number it
stands for do. A type says so by a canonical form; two elements are the *same* when their canonical
forms agree. Finite sets up to sameness are lists in order of insertion, in which of several
elements that are the same the first stays.

## Main definitions

* `Canonical`, `Same`: canonical forms and sameness
* `ListSet.insert`, `ListSet.union`, `ListSet.ofList`, `ListSet.diff`, `ListSet.subset`,
  `ListSet.equal`: sets up to sameness
-/

namespace RuleDiagram

/-- A type with a canonical form of its elements. -/
class Canonical (α : Type) where
  canonical : α → α

export Canonical (canonical)

instance {α : Type} [Canonical α] : Canonical (List α) := ⟨List.map canonical⟩

instance {α : Type} [Canonical α] : Canonical (Option α) := ⟨Option.map canonical⟩

/-- Two elements are the same when their canonical forms agree. -/
def Same {α : Type} [Canonical α] (x y : α) : Prop := canonical x = canonical y

instance {α : Type} [Canonical α] [DecidableEq α] (x y : α) : Decidable (Same x y) :=
  inferInstanceAs (Decidable (canonical x = canonical y))

namespace ListSet

variable {α : Type} [Canonical α] [DecidableEq α]

/-- Some element of the list is the same as the given one. -/
def has (xs : List α) (x : α) : Bool := xs.any fun y => decide (Same y x)

/-- The list with the element at its end, unless the same is already there. -/
def insert (xs : List α) (x : α) : List α := if has xs x then xs else xs ++ [x]

/-- The first list with those elements of the second that it lacks. -/
def union (xs ys : List α) : List α := ys.foldl insert xs

/-- The list without the elements that are the same as an earlier one. -/
def ofList (xs : List α) : List α := union [] xs

/-- The elements of the first list that are not in the second. -/
def diff (xs ys : List α) : List α := xs.filter fun x => !has ys x

/-- The elements of the first list that are in the second. -/
def inter (xs ys : List α) : List α := xs.filter fun x => has ys x

/-- Every element of the first list is in the second. -/
def subset (xs ys : List α) : Bool := xs.all fun x => has ys x

/-- The two lists have the same elements. -/
def equal (xs ys : List α) : Bool := subset xs ys && subset ys xs

end ListSet

end RuleDiagram
