import RuleDiagram.Mutation.Apply
import RuleDiagram.Problem

/-!
# Analyzers

An analyzer looks for mutations that can be applied to a diagram. It judges the diagram by its
evaluations on the inputs of examples, where an evaluation that would need too many rounds is
absent.

## Main definitions

* `Analyzer`: what an analyzer may offer, and how much of it
* `Analyzer.evaluations`, `Analyzer.correct`: a diagram on examples
* `Analyzer.constantPool`: the constants on offer
* `AnalysisFault`: why an analysis fails
-/

namespace RuleDiagram

/-- What an analyzer may offer, and how much of it. -/
structure Analyzer where
  registry : Option Registry
  limit : RoundLimit
  /-- Decides whether the two targets of a branch may be combined. -/
  combiner : Diagram → Int → Int → Except EditFault Bool
  /-- Values offered as constants, before those of the diagram. -/
  values : List Value
  /-- How many constants are on offer; a negative number is how many are left out at the end. -/
  maxConstants : Int
  behaviorBudget : Nat
  escapeBudget : Nat
  /-- How many unused registers are offered. -/
  freshRegisters : Nat

/-- Consecutive integers from one on, as many as asked for. -/
def integersFrom (start : Int) (count : Nat) : List Int :=
  (List.range count).map fun i : Nat => start + i

/-- Why an analysis fails. -/
inductive AnalysisFault where
  | run (f : RunFault)
  | mutation (f : MutationFault)
  | untextual (f : Untextual)
  | edit (f : EditFault)
  | noSuchExample
  | noRegistry

namespace Analyzer

/-- The analyzer with the usual budgets. -/
def standard (registry : Option Registry) : Analyzer :=
  ⟨registry, .standard, Diagram.samePattern, [], 16, 8, 2, 1⟩

/-- The evaluation on some facts; none if it would need too many rounds. -/
def evaluation? (limit : RoundLimit) (d : Diagram) (facts : List Fact) :
    Except RunFault (Option Evaluation) :=
  match d.evaluate facts limit with
  | .ok e => .ok (some e)
  | .error (.limitReached _) => .ok none
  | .error f => .error f

/-- The evaluations on the inputs of examples. -/
def evaluations (a : Analyzer) (d : Diagram) (examples : List Example) :
    Except RunFault (List (Option Evaluation)) :=
  examples.mapM fun e => evaluation? a.limit d e.inputs

/-- An evaluation gives exactly the desired outputs of an example. -/
def isCorrect (e : Option Evaluation) (x : Example) : Bool :=
  e.any fun e => ListSet.equal e.outputs x.outputs

/-- The examples, in order, that the evaluations get right. -/
def correct (evaluations : List (Option Evaluation)) (examples : List Example) : List Bool :=
  List.zipWith isCorrect evaluations examples

/-- The constants on offer for a diagram. -/
def constantPool (a : Analyzer) (d : Diagram) : List Value :=
  before (ListSet.ofList (a.values ++ d.constants)) a.maxConstants

/-- The first register beyond all that a diagram mentions. -/
def firstFresh (d : Diagram) : Int := (d.registers.getLast?.map fun r => r + 1).getD 0

/-- The mutation can be applied to the diagram, judged by evaluations. -/
def isApplicable (a : Analyzer) (d : Diagram) (evaluations : List Evaluation) (m : Mutation) :
    Except AnalysisFault Bool :=
  match m.apply a.registry d evaluations with
  | .ok _ => .ok true
  | .error (.invalid _) => .ok false
  | .error f => .error (.mutation f)

/-- The mutations of a list that can be applied. -/
def keepApplicable (a : Analyzer) (d : Diagram) (evaluations : List Evaluation) :
    List Mutation → Except AnalysisFault (List Mutation)
  | [] => .ok []
  | m :: rest => do
    let keep ← a.isApplicable d evaluations m
    let others ← a.keepApplicable d evaluations rest
    return if keep then m :: others else others

end Analyzer

end RuleDiagram
