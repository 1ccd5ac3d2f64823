import RuleDiagram.Random.Weighted
import RuleDiagram.Search.Weights

/-!
# Sampling mutations

Mutations are drawn without repetition, in proportion to their weights. Those without weight are not
drawn, and no more are drawn than have a weight. The sum of the weights is taken in strands and by
halves, which keeps its rounding errors small.

## Main definitions

* `sampleMutations`
* `SamplingFault`: why nothing can be drawn
-/

namespace RuleDiagram

/-- Why nothing can be drawn. -/
inductive SamplingFault where
  | weight (f : WeightFault)
  /-- Weights other than zero are left, but no positive one. -/
  | exhausted

/-- The sum of up to 128 numbers. From eight numbers on it is taken in eight strands, to each of
which goes every eighth number; the strands are added in pairs, and then the numbers left over. -/
def strandTotal (xs : List Binary64) : Binary64 :=
  let whole := xs.length / 8 * 8
  let strand (k : Nat) : Binary64 :=
    let taken := ((xs.take whole).zipIdx.filter fun (_, i) => decide (i % 8 = k)).map Prod.fst
    (taken.drop 1).foldl Binary64.add (taken.headD .zero)
  let pair (k : Nat) : Binary64 := (strand k).add (strand (k + 1))
  let strands := ((pair 0).add (pair 2)).add ((pair 4).add (pair 6))
  if whole = 0 then Binary64.sum xs else (xs.drop whole).foldl Binary64.add strands

/-- The sum of numbers by halves: lists of more than 128 numbers are cut into two, of which the
first has a multiple of eight numbers. -/
def halvedTotal : Nat → List Binary64 → Binary64
  | 0, xs => Binary64.sum xs
  | depth + 1, xs =>
    if xs.length ≤ 128 then strandTotal xs
    else
      let first := xs.length / 2 / 8 * 8
      (halvedTotal depth (xs.take first)).add (halvedTotal depth (xs.drop first))

/-- The weights as shares of their sum. -/
def shares (weights : List Binary64) : List Binary64 :=
  let total := halvedTotal weights.length weights
  weights.map fun w => w.div total

/-- The places of the mutations drawn, given by their kinds, at most as many as asked for. -/
def sampleMutations {σ : Type} [RandomSource σ] (w : Weights) (kinds : List String)
    (count : Int) (s : σ) : Except SamplingFault (List Nat × σ) := do
  if kinds = [] ∨ count ≤ 0 then return ([], s)
  let weights ← (kinds.mapM w.ofKind).mapError SamplingFault.weight
  let weighted := (weights.filter fun x => decide (x.code ≠ 0)).length
  if weighted = 0 then return ([], s)
  match weightedDraw (shares weights) (min count.toNat weighted) s with
  | (some places, s) => return (places, s)
  | (none, _) => throw .exhausted

end RuleDiagram
