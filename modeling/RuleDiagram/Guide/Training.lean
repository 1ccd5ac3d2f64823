import RuleDiagram.Guide.Network
import RuleDiagram.Number.Decimal

/-!
# Training a network

A network is trained on inputs with targets by steps against the gradient of the mean squared error.
The gradient is first cut down to a greatest length; a step is then scaled, parameter by parameter,
by running means of the gradient and of its square. Parameters, gradients and running means are of
single precision.

## Main definitions

* `Optimizer`: the running means
* `Optimizer.step`: one step
* `meanSquaredError`
-/

namespace RuleDiagram

/-- Constants of training. -/
structure TrainingConstants where
  /-- How much of the running mean of the gradient stays. -/
  keepMean : Binary64
  /-- How much of the running mean of its square stays. -/
  keepSquare : Binary64
  /-- What keeps divisors away from zero in a step. -/
  stepGuard : Binary64
  /-- The greatest length of a gradient. -/
  longest : Binary64
  /-- What keeps the length of a gradient away from zero. -/
  lengthGuard : Binary64

/-- Nine tenths of the mean and 999 thousandths of the square stay; gradients are at
most five long. -/
def trainingConstants : TrainingConstants :=
  ⟨.ofDecimal false ⟨9, -1⟩, .ofDecimal false ⟨999, -3⟩, .ofDecimal false ⟨1, -8⟩, .ofInt 5,
    .ofDecimal false ⟨1, -6⟩⟩

/-- The number one. -/
def Binary64.one : Binary64 := .ofInt 1

/-- A number multiplied by itself as often as asked for. -/
def Binary64.power (x : Binary64) : Nat → Binary64
  | 0 => .one
  | n + 1 => (x.power n).mul x

/-- A network in training: its parameters, the running means, and the number of steps taken. -/
structure Optimizer where
  rate : Binary64
  network : Network
  means : Network
  squares : Network
  steps : Nat

namespace Optimizer

/-- Training that has not begun. -/
def start (rate : Binary64) (n : Network) : Optimizer :=
  let zeros := n.map fun _ => Binary64.zero
  ⟨rate, n, zeros, zeros, 0⟩

/-- The length of a gradient; infinite if the sum of the squares is no single number. -/
def length (g : Network) : Binary64 :=
  let squares := (List.flatMap Layer.parameters g).map fun x => x.mul x
  let total := Binary64.sum squares
  if total.toSingle.isFinite then total.sqrt.toSingle else total.toSingle

/-- A gradient cut down to the greatest length. -/
def clip (g : Network) : Network :=
  let c := trainingConstants
  let factor := Single.div c.longest (Single.add (length g) c.lengthGuard.toSingle)
  if Binary64.one.atMost factor then g else g.map fun x => Single.mul x factor

/-- A running mean after another number. -/
def nextMean (mean x : Binary64) : Binary64 :=
  Single.fused mean (Binary64.one.sub trainingConstants.keepMean).toSingle (Single.sub x mean)

/-- A running mean of squares after another number. -/
def nextSquare (square x : Binary64) : Binary64 :=
  let keep := trainingConstants.keepSquare
  Single.add (Single.mul square keep.toSingle)
    (Single.mul (Single.mul (Binary64.one.sub keep).toSingle x) x)

/-- The change of a parameter with the given means, for a size of the step and a scale of the
spread. -/
def change (size spreadScale mean square : Binary64) : Binary64 :=
  Single.div (Single.mul size mean)
    (Single.add (Single.div (Single.sqrt square) spreadScale) trainingConstants.stepGuard.toSingle)

/-- One step against a gradient. Means and squares that have only begun to be taken
are scaled up. -/
def step (o : Optimizer) (gradient : Network) : Optimizer :=
  let c := trainingConstants
  let g := clip gradient
  let steps := o.steps + 1
  let means := Network.zipWith nextMean o.means g
  let squares := Network.zipWith nextSquare o.squares g
  let size := (o.rate.div (Binary64.one.sub (c.keepMean.power steps))).toSingle
  let spreadScale := (Binary64.one.sub (c.keepSquare.power steps)).sqrt.toSingle
  let changes := Network.zipWith (change size spreadScale) means squares
  ⟨o.rate, Network.zipWith Single.sub o.network changes, means, squares, steps⟩

end Optimizer

/-- The mean of the squares of the errors. -/
def meanSquaredError (n : Network) (batch : List (List Binary64 × Binary64)) : Binary64 :=
  Single.mean <| batch.map fun (xs, target) =>
    let e := Single.sub (n.predict xs) target
    Single.mul e e

/-- How each parameter changes the mean squared error. -/
def errorGradient (n : Network) (batch : List (List Binary64 × Binary64)) : Network :=
  let share := (Binary64.ofRatio 2 batch.length).toSingle
  batch.foldl
    (fun sum (xs, target) =>
      Network.zipWith Single.add sum
        (n.gradient xs fun ys => ys.map fun y => Single.mul share (Single.sub y target)).1)
    (n.map fun _ => Binary64.zero)

end RuleDiagram
