import RuleDiagram.Number.Root

/-!
# Single precision

The numbers with 24 significant bits, each held as the number of 64 bits with the same value. An
operation on them is carried out in 64 bits and its result is rounded once more; as 53 digits are
more than twice 24 digits, the result is the single number nearest to the exact one.

## Main definitions

* `Binary64.toSingle`: the single number nearest to a number
* `Single.add`, `Single.sub`, `Single.mul`, `Single.div`, `Single.sqrt`: arithmetic
* `Single.fused`: a sum with a product that is not rounded
* `Single.sum`: the sum of a list, taken in rows
-/

namespace RuleDiagram

/-- The least magnitude beyond all single numbers, in units. -/
def singleBound : Nat := Nat.pow 2 (1074 + 128)

/-- The single number nearest to a number: 24 significant bits, and no magnitude finer than
`2 ^ -149`; infinity where the finite ones end. -/
def Binary64.toSingle (x : Binary64) : Binary64 :=
  if x.isFinite then
    let finest := Nat.pow 2 (1074 - 149)
    let m := x.magnitude
    let step := max finest (Nat.pow 2 (m.log2 - 23))
    let rounded := roundHalfEven m step * step
    if singleBound ≤ rounded then .infinity x.negative else .ofUnits x.negative rounded 1
  else x

namespace Single

def add (x y : Binary64) : Binary64 := (x.add y).toSingle

def sub (x y : Binary64) : Binary64 := (x.sub y).toSingle

def mul (x y : Binary64) : Binary64 := (x.mul y).toSingle

def div (x y : Binary64) : Binary64 := (x.div y).toSingle

def sqrt (x : Binary64) : Binary64 := x.sqrt.toSingle

/-- A number and a product, added in one step. -/
def fused (sum x y : Binary64) : Binary64 := (sum.add (x.mul y)).toSingle

/-- A list cut into rows of the given width, at most as many as asked for. -/
def rows (width : Nat) : Nat → List Binary64 → List (List Binary64)
  | 0, _ => []
  | count + 1, xs => xs.take width :: rows width count (xs.drop width)

/-- The sum of rows, number by number. -/
def sumRows (start : List Binary64) (table : List (List Binary64)) : List Binary64 :=
  table.foldl (List.zipWith add) start

/-- The rows of a table from the given one on, every fourth. -/
def everyFourth (first : Nat) (table : List (List Binary64)) : List (List Binary64) :=
  (table.zipIdx.filter fun (_, i) => decide (i % 4 = first)).map Prod.fst

/-- The sum of rows in four strands: whole groups of four rows go to one strand each, the rows left
over to the first, and the strands are added in turn. -/
def strandSum (width : Nat) (table : List (List Binary64)) : List Binary64 :=
  let whole := table.take (table.length / 4 * 4)
  let strand (k : Nat) := sumRows (List.replicate width .zero) (everyFourth k whole)
  sumRows (sumRows (strand 0) (table.drop whole.length)) [strand 1, strand 2, strand 3]

/-- The sum of a list: the numbers left over when it is cut into rows, and then those of the row
that is the sum of all rows. Rows have eight numbers, or one if the list has fewer than eight. -/
def sum (xs : List Binary64) : Binary64 :=
  let width := if xs.length < 8 then 1 else 8
  let count := xs.length / width
  let rest := (xs.drop (count * width)).foldl add .zero
  (strandSum width (rows width count xs)).foldl add rest

/-- The mean of a list. -/
def mean (xs : List Binary64) : Binary64 := div (sum xs) (.ofInt xs.length)

end Single

end RuleDiagram
