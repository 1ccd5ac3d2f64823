import RuleDiagram.Number.Binary64
import RuleDiagram.Random.Source

/-!
# Weighted draws

Elements are drawn without repetition, each with a chance in proportion to its weight among those
that are left. Elements without a positive weight are never drawn.

## Main definitions

* `pick?`: the element on which a point of the line of weights falls
* `weightedDraw`: places drawn in proportion to their weights
-/

namespace RuleDiagram

/-- The first element whose weight, added to all earlier ones, exceeds the goal; the last one if the
sum of all weights does not. -/
def pick? {α : Type} (goal sum : Binary64) : List (α × Binary64) → Option α
  | [] => none
  | [(x, _)] => some x
  | (x, w) :: rest =>
    let sum := sum.add w
    if goal.less sum then some x else pick? goal sum rest

/-- The point of the line from zero to the total that a number up to `2 ^ 20` stands for. -/
def pointOnLine (k : Nat) (total : Binary64) : Binary64 :=
  (Binary64.ofRatio k (Nat.pow 2 20)).mul total

/-- Draws places from a pool of places with weights; nothing if the pool runs out. -/
def drawFrom {σ : Type} [RandomSource σ] : Nat → List (Nat × Binary64) → σ → Option (List Nat) × σ
  | 0, _, s => (some [], s)
  | count + 1, pool, s =>
    let (k, s) := RandomSource.upTo (Nat.pow 2 20 - 1) s
    match pick? (pointOnLine k (Binary64.sum (pool.map Prod.snd))) .zero pool with
    | none => (none, s)
    | some place =>
      match drawFrom count (pool.filter fun p => decide (p.1 ≠ place)) s with
      | (some places, s) => (some (place :: places), s)
      | (none, s) => (none, s)

/-- Draws places of a list of weights, in proportion to the positive ones among them. -/
def weightedDraw {σ : Type} [RandomSource σ] (weights : List Binary64) (count : Nat) (s : σ) :
    Option (List Nat) × σ :=
  drawFrom count
    ((weights.zipIdx.filter fun (w, _) => Binary64.zero.less w).map fun (w, i) => (i, w)) s

end RuleDiagram
