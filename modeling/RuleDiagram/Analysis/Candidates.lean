import RuleDiagram.Analysis.Escape
import RuleDiagram.Analysis.Move
import RuleDiagram.Analysis.Neutral
import RuleDiagram.Analysis.Sizing

/-!
# Analyses of diagrams

An analysis of a diagram on examples holds its evaluations and the mutations on offer: neutral ones,
size-changing ones, grafts for failing examples, and moves that may change behaviour.

## Main definitions

* `Analysis`
* `Analyzer.analyze`: the analysis of a diagram
-/

namespace RuleDiagram

/-- The evaluations of a diagram on examples, which of them are correct, and the
mutations on offer. -/
structure Analysis where
  evaluations : List (Option Evaluation)
  correct : List Bool
  candidates : List Mutation

/-- The places of the examples that are not correct. -/
def failingPlaces (correct : List Bool) : List Nat :=
  (correct.zipIdx.filter fun (ok, _) => !ok).map Prod.snd

/-- The places of the examples that an analysis finds not correct. -/
def Analysis.failing (x : Analysis) : List Nat := failingPlaces x.correct

/-- **The analysis of a diagram.** Evaluations that are known may be given; they are used if there
is one for each example. -/
def Analyzer.analyze {σ : Type} [RandomSource σ] (a : Analyzer) (d : Diagram)
    (examples : List Example) (known : Option (List (Option Evaluation))) (s : σ) :
    Except AnalysisFault (Analysis × σ) := do
  let evaluations ← match known.filter fun es => decide (es.length = examples.length) with
    | some es => pure es
    | none => (a.evaluations d examples).mapError AnalysisFault.run
  let correct := Analyzer.correct evaluations examples
  let terminated := evaluations.filterMap id
  let neutral ← if terminated.isEmpty then pure [] else a.neutralCandidates d terminated
  let sizes ← a.sizeCandidates d
  let (grafts, s) ← a.escapeCandidates d examples evaluations (failingPlaces correct) s
  let (moves, s) ← a.moves d s
  let candidates := neutral ++ sizes.sizing ++ grafts ++ sizes.redirections ++ moves
  return (⟨evaluations, correct, candidates⟩, s)

end RuleDiagram
