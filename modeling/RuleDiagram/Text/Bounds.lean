/-!
# Character classes as lists of bounds

A class of characters is given by the ascending list of the code points at which membership changes:
the first bound begins the first run of members, the second ends it, and so on.
-/

namespace RuleDiagram

/-- A code point belongs to a class exactly when an odd number of the class's bounds are at or below
it. -/
def withinBounds (bounds : List Nat) (codePoint : Nat) : Bool :=
  bounds.countP (fun bound => decide (bound ≤ codePoint)) % 2 == 1

end RuleDiagram
