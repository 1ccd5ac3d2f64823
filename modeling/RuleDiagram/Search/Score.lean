import RuleDiagram.Number.Amount
import RuleDiagram.Problem
import RuleDiagram.Random.Weighted
import RuleDiagram.Run.Evaluation

/-!
# Scores

A diagram is scored on examples. A scorer compares the facts that an evaluation emits with those
that are desired; an evaluation that would need too many rounds scores a penalty. The fitness of a
diagram is the sum of its scores.

## Main definitions

* `Scorer`, `Scorer.agreement`: minus one for each surplus fact, minus two for each missing one
* `Scoring`: examples with a scorer and a penalty
* `ScoreCard`, `Scoring.card`: the scores of a diagram
-/

namespace RuleDiagram

/-- What emitted facts are worth when others are desired. -/
abbrev Scorer := List Fact → List Fact → Binary64

namespace Scorer

/-- Minus one for each emitted fact that is not desired, minus two for each desired one that is not
emitted; without any of these, negative zero. -/
def agreement : Scorer := fun emitted desired =>
  let surplus := (ListSet.diff emitted desired).length
  let missing := (ListSet.diff desired emitted).length
  (Binary64.ofInt (surplus + 2 * missing)).neg

/-- The number of desired facts that are emitted. -/
def overlap : Scorer := fun emitted desired => .ofInt (ListSet.inter emitted desired).length

/-- The number of emitted facts. -/
def count : Scorer := fun emitted _ => .ofInt emitted.length

/-- The share of the desired facts that are emitted in all facts that are either. -/
def ratio : Scorer := fun emitted desired =>
  .ofRatio (ListSet.inter emitted desired).length (max (ListSet.union emitted desired).length 1)

/-- The scorer of a name. -/
def named? : String → Option Scorer
  | "agreement" => some agreement
  | "overlap" => some overlap
  | "count" => some count
  | "ratio" => some ratio
  | _ => none

end Scorer

/-- What an evaluation without an end costs, given the desired facts. -/
abbrev Penalty := List Fact → Binary64

namespace Penalty

/-- One less than emitting nothing. -/
def standard : Penalty := fun desired => (Binary64.ofInt (2 * desired.length + 1)).neg

/-- Ten, and one for each desired fact. -/
def ten : Penalty := fun desired => .ofInt (-10 - desired.length)

end Penalty

/-- How diagrams are scored. -/
structure Scoring where
  examples : List Example
  scorer : Scorer
  penalty : Penalty
  limit : RoundLimit

/-- The score of one example, with its evaluation if that came to an end. -/
structure ExampleScore where
  score : Binary64
  evaluation : Option Evaluation
  correct : Bool

/-- The scores of a diagram, example by example. -/
structure ScoreCard where
  entries : List ExampleScore

namespace ScoreCard

def scores (c : ScoreCard) : List Binary64 := c.entries.map ExampleScore.score

def evaluations (c : ScoreCard) : List (Option Evaluation) := c.entries.map ExampleScore.evaluation

/-- The sum of the scores. -/
def fitness (c : ScoreCard) : Binary64 := Binary64.sum c.scores

/-- Every example is reproduced exactly. -/
def perfect (c : ScoreCard) : Bool := c.entries.all ExampleScore.correct

/-- Every evaluation came to an end. -/
def terminated (c : ScoreCard) : Bool := c.entries.all fun e => e.evaluation.isSome

end ScoreCard

namespace Scoring

/-- The score of an evaluation on one example, or of one that did not come to an end. -/
def scoreOf (s : Scoring) (x : Example) : Option Evaluation → ExampleScore
  | some e => ⟨s.scorer e.outputs x.outputs, some e, ListSet.equal e.outputs x.outputs⟩
  | none => ⟨s.penalty x.outputs, none, false⟩

/-- The score of a diagram on one example. -/
def entry (s : Scoring) (d : Diagram) (x : Example) : Except RunFault ExampleScore :=
  match d.evaluate x.inputs s.limit with
  | .ok e => .ok (s.scoreOf x (some e))
  | .error (.limitReached _) => .ok (s.scoreOf x none)
  | .error f => .error f

/-- **The scores of a diagram.** -/
def card (s : Scoring) (d : Diagram) : Except RunFault ScoreCard := do
  return ⟨← s.examples.mapM (s.entry d)⟩

end Scoring

end RuleDiagram
