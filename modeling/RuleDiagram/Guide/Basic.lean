import RuleDiagram.Guide.Features
import RuleDiagram.Guide.Training
import RuleDiagram.Random.Source

/-!
# Guides

A guide predicts the fitness of diagrams, or of whatever else has features. It observes scored
subjects, keeps the latest of them, and trains a network on their features once there are enough.
Until then it has no opinion, and a choice between subjects is left to chance.

## Main definitions

* `Guide`, `Guide.create`
* `Guide.observe`, `Guide.train`: learning
* `Guide.predict`, `Guide.select`: predictions, and the subjects predicted best
-/

namespace RuleDiagram

/-- What a guide is made with. -/
structure GuideOptions where
  /-- The widths of the inner layers, the usual ones if there are none; those that are not positive
  are left out. -/
  widths : List Int := []
  rate : Binary64 := .ofDecimal false ⟨1, -3⟩
  bufferSize : Int := 512
  minBuffer : Int := 32
  batchSize : Int := 32
  epochs : Nat := 3
  maxObservations : Int := 32

/-- The widths of the inner layers that are used. -/
def GuideOptions.layers (o : GuideOptions) : List Nat :=
  let widths := if o.widths = [] then [64, 32] else o.widths
  (widths.filter fun w => decide (0 < w)).map Int.toNat

/-- A scored subject as a guide keeps it. -/
structure Observation where
  features : List Binary64
  target : Binary64

/-- The mean and the spread of observed targets. -/
structure TargetScale where
  mean : Binary64
  spread : Binary64

/-- A guide: what it was made with, what it has observed, and what it has learnt. -/
structure Guide where
  options : GuideOptions
  space : FeatureSpace
  optimizer : Optimizer
  buffer : List Observation
  scale : Option TargetScale
  losses : List Binary64
  trained : Bool

/-- Why a guide fails, given why a subject may have no features. -/
inductive GuideFault (φ : Type) where
  | features (f : φ)
  | emptyBuffer
  /-- There is no room for a negative number of observations. -/
  | negativeBuffer
  /-- A whole fitness is too large for a number. -/
  | fitnessTooLarge
  /-- Batches have no size. -/
  | zeroBatch
  /-- Batches have a negative size, so that there is none. -/
  | noBatch

/-- The fault in words. -/
def GuideFault.message {φ : Type} : GuideFault φ → String
  | features _ => "The subject has no features."
  | emptyBuffer => "Nothing has been observed."
  | negativeBuffer => "maxlen must be non-negative"
  | fitnessTooLarge => "The fitness is too large."
  | zeroBatch => "range() arg 3 must not be zero"
  | noBatch => "There is no batch."

namespace Guide

variable {δ φ : Type}

/-- A guide that has not observed anything. -/
def create (r : Registry) (o : GuideOptions) : Except (GuideFault φ) Guide :=
  let space := FeatureSpace.standard r
  let network := Network.start space.dimension o.layers
  if o.bufferSize < 0 then .error .negativeBuffer
  else .ok ⟨o, space, .start o.rate network, [], none, [], false⟩

/-- The features of a subject as numbers. -/
def encode [Featured δ φ] (g : Guide) (d : δ) : Except (GuideFault φ) (List Binary64) := do
  return (← (Featured.features g.space d).mapError GuideFault.features).map Share.toSingle

/-- Keeps one more observation, and as many of the latest as there is room for. -/
def keep (g : Guide) (o : Observation) : Guide :=
  let buffer := g.buffer ++ [o]
  { g with buffer := buffer.drop (buffer.length - g.options.bufferSize.toNat) }

/-- The target that a fitness is; none if it is missing or not finite. Whole numbers have to lie
between `-2 ^ 63` and `2 ^ 64`. -/
def target (fitness : Option Amount) : Except (GuideFault φ) (Option Binary64) :=
  match fitness with
  | none => .ok none
  | some (.float x) => .ok (if x.isFinite then some x else none)
  | some (.whole n) =>
    if -9223372036854775808 ≤ n ∧ n < 18446744073709551616 then .ok (some (.ofInt n))
    else .error .fitnessTooLarge

/-- Keeps a subject that has a finite fitness; tells whether it does. -/
def collectOne [Featured δ φ] (g : Guide) (d : δ) (fitness : Option Amount) :
    Except (GuideFault φ) (Guide × Bool) := do
  match ← target fitness with
  | none => return (g, false)
  | some target => return (g.keep ⟨← g.encode d, target⟩, true)

/-- Keeps the subjects that have a finite fitness; tells how many they are. -/
def collect [Featured δ φ] : Guide → List (δ × Option Amount) → Guide × Except (GuideFault φ) Nat
  | g, [] => (g, .ok 0)
  | g, (d, fitness) :: rest =>
    match g.collectOne d fitness with
    | .error f => (g, .error f)
    | .ok (g, kept) =>
      let (g, count) := g.collect rest
      (g, count.map (· + if kept then 1 else 0))

/-- The mean and the spread of targets: the mean in single precision, and the spread from it in
double precision and then rounded. A spread that is undefined or next to nothing counts as one. -/
def scaleOf (targets : List Binary64) : TargetScale :=
  let mean := Single.mean targets
  let squares := targets.map fun t =>
    let e := t.sub mean
    e.mul e
  let spread := ((Binary64.sum squares).div (.ofInt (targets.length - 1 : Nat))).sqrt.toSingle
  if !spread.isFinite ∨ spread.less trainingConstants.lengthGuard then ⟨mean, .one⟩
  else ⟨mean, spread⟩

/-- A list in pieces of at most the given length, for at most the given number of pieces. -/
def pieces {α : Type} (length : Nat) : Nat → List α → List (List α)
  | 0, _ => []
  | _ + 1, [] => []
  | count + 1, x :: rest => (x :: rest).take length :: pieces length count ((x :: rest).drop length)

/-- One pass over all batches, with the error before the last step. -/
def pass (o : Optimizer) (batches : List (List (List Binary64 × Binary64))) :
    Optimizer × Binary64 :=
  batches.foldl
    (fun (o, _) batch =>
      (o.step (errorGradient o.network batch), meanSquaredError o.network batch))
    (o, .zero)

/-- Passes over all batches, with the errors of each. -/
def passes (batches : List (List (List Binary64 × Binary64))) :
    Nat → Optimizer → Optimizer × List Binary64
  | 0, o => (o, [])
  | epochs + 1, o =>
    let (o, loss) := pass o batches
    let (o, losses) := passes batches epochs o
    (o, loss :: losses)

/-- Trains on samples, in batches of the given size. -/
def fit (g : Guide) (samples : List (List Binary64 × Binary64)) : Except (GuideFault φ) Guide :=
  let size := g.options.batchSize
  if g.options.epochs = 0 then .ok { g with trained := true }
  else if size = 0 then .error .zeroBatch
  else if size < 0 then .error .noBatch
  else
    let batches := pieces size.toNat samples.length samples
    let (optimizer, losses) := passes batches g.options.epochs g.optimizer
    .ok { g with optimizer := optimizer, losses := g.losses ++ losses, trained := true }

/-- Trains on what has been observed, if it is enough. A fault of the batches leaves the scale of
the targets. -/
def train (g : Guide) : Guide × Except (GuideFault φ) Unit :=
  if (g.buffer.length : Int) < g.options.minBuffer then (g, .ok ())
  else if g.buffer = [] then (g, .error .emptyBuffer)
  else
    let targets := g.buffer.map fun o => o.target.toSingle
    let scale := scaleOf targets
    let scaled := targets.map fun t => Single.div (Single.sub t scale.mean) scale.spread
    let g := { g with scale := some scale }
    match g.fit (List.zip (g.buffer.map Observation.features) scaled) with
    | .ok g => (g, .ok ())
    | .error f => (g, .error f)

/-- Observes scored subjects, the first of them up to the greatest number, and trains if any of them
was kept. A fault leaves what was kept before it. -/
def observe [Featured δ φ] (g : Guide) (people : List (δ × Option Amount)) :
    Guide × Except (GuideFault φ) Unit :=
  let (g, count) := g.collect (before people g.options.maxObservations)
  match count with
  | .error f => (g, .error f)
  | .ok 0 => (g, .ok ())
  | .ok _ => g.train

/-- The predicted fitness of subjects, if the guide has been trained. -/
def predict [Featured δ φ] (g : Guide) (ds : List δ) :
    Except (GuideFault φ) (Option (List Binary64)) :=
  match g.scale.filter fun _ => g.trained with
  | none => return none
  | some scale => do
    let inputs ← ds.mapM g.encode
    let widened := (scale.spread.add trainingConstants.lengthGuard).toSingle
    return some (inputs.map fun xs =>
      Single.add (Single.mul (g.optimizer.network.predict xs) widened) scale.mean)

/-- The greatest finite single number. -/
def greatestSingle : Binary64 := .ofUnits false (singleBound - Nat.pow 2 (1074 + 104)) 1

/-- What a prediction counts for: infinite ones as much as the greatest finite ones, undefined ones
less than all others. -/
def rank (x : Binary64) : Binary64 :=
  if x.isUndefined then .infinity true
  else if x.isFinite then x
  else if x.negative then greatestSingle.neg
  else greatestSingle

/-- The places of the subjects predicted best, at most as many as asked for; random places if there
are no predictions. A negative number is how many are left out at the end. -/
def select {σ : Type} [RandomSource σ] [Featured δ φ] (g : Guide) (ds : List δ) (count : Int)
    (s : σ) : Except (GuideFault φ) (List Nat × σ) := do
  let count := min count ds.length
  match (← g.predict ds).filter fun ps => ps.any Binary64.isFinite with
  | none => return sample count.toNat (List.range ds.length) s
  | some predictions =>
    let order := (predictions.zipIdx.mergeSort fun a b => !(rank a.1).less (rank b.1)).map Prod.snd
    return (before order count, s)

end Guide

end RuleDiagram
