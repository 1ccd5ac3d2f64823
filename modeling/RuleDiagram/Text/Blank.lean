import RuleDiagram.Text.Bounds

/-!
# Blank characters

The white space that separates tokens and is trimmed from names: the ASCII blanks, the four
information separators, the next-line character, and the space, line and paragraph separators beyond
ASCII. Around a number the information separators do not count.

## Main definitions

* `isBlank`, `trimmed`, `trimBlanks`: blanks in general, and texts without them at the ends
* `isMargin`: blanks around a number
-/

namespace RuleDiagram

/-- The bounds of the runs of blank characters. -/
def blankBounds : List Nat :=
  [9, 14, 28, 33, 133, 134, 160, 161, 5760, 5761, 8192, 8203, 8232, 8234, 8239, 8240, 8287,
   8288, 12288, 12289]

/-- A character that counts as white space. -/
def isBlank (c : Char) : Bool := withinBounds blankBounds c.toNat

/-- The characters without those at the ends that satisfy a condition. -/
def trimmed (p : Char → Bool) (cs : List Char) : List Char :=
  ((cs.dropWhile p).reverse.dropWhile p).reverse

/-- The text without the blanks at its ends. -/
def trimBlanks (s : String) : String := String.ofList (trimmed isBlank s.toList)

/-- A blank other than an information separator: what may surround a number in a text. -/
def isMargin (c : Char) : Bool := isBlank c && !withinBounds [28, 32] c.toNat

end RuleDiagram
