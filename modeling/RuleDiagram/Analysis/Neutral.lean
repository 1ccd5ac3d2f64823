import RuleDiagram.Analysis.Analyzer

/-!
# Neutral mutations on offer

For every node that some snapshot has come to, and every term of its pattern, the edits that the
snapshots may allow. Each is tried before it is offered.

## Main definitions

* `commonBindings`, `agreeingRegisters`: what holds in all snapshots
* `Analyzer.neutralCandidates`
-/

namespace RuleDiagram

/-- The bindings of the first snapshot that hold in all of them. -/
def commonBindings : List Snapshot → List (Int × Value)
  | [] => []
  | s :: rest => s.bindings.filter fun (r, v) => rest.all fun t => t.holds r v

/-- Two registers hold the same value, or neither holds one. -/
def Snapshot.agree (s : Snapshot) (first second : Int) : Bool :=
  decide (Same (s.get? first) (s.get? second))

/-- The other registers of the first snapshot that agree with a register in all of them. -/
def agreeingRegisters (snapshots : List Snapshot) (register : Int) : List Int :=
  match snapshots with
  | [] => []
  | s :: _ =>
    s.registers.filter fun r => decide (r ≠ register) && snapshots.all fun t => t.agree r register

namespace Analyzer

/-- The edits of one term to be tried, given the snapshots that have come to its node. -/
def proposals (pool : List Value) (freeTargets : List Int) (snapshots : List Snapshot)
    (index : Int) (position : Nat) (t : Term) : List Mutation :=
  match t with
  | .constant v =>
    ((commonBindings snapshots).filter fun b => decide (Same b.2 v)).map
        (fun b => Mutation.bindConstant (some index) position b.1) ++
      (pool.filter fun w => !decide (Same w v)).map (Mutation.replaceConstant (some index) position)
  | .reference r =>
    ((commonBindings snapshots).lookup r).toList.map
        (Mutation.unbindConstant (some index) position) ++
      (agreeingRegisters snapshots r).map (Mutation.retargetRegister (some index) position)
  | .free r =>
    (freeTargets.filter fun q => decide (q ≠ r)).map
      (Mutation.replaceFreeRegister (some index) position)

/-- The indices that some snapshot has come to, ascending. -/
def reached (evaluations : List Evaluation) : List Int :=
  ascending (evaluations.flatMap fun e => e.incoming.indices)

/-- The neutral mutations that can be applied. -/
def neutralCandidates (a : Analyzer) (d : Diagram) (evaluations : List Evaluation) :
    Except AnalysisFault (List Mutation) := do
  let pool := a.constantPool d
  let freeTargets := d.registers ++ integersFrom (firstFresh d) a.freshRegisters
  let proposals ← (reached evaluations).mapM fun index => do
    let n ← (d.node index).mapError AnalysisFault.edit
    let snapshots := Mutation.reaching evaluations index
    return n.pattern.terms.zipIdx.flatMap fun (t, position) =>
      proposals pool freeTargets snapshots index position t
  a.keepApplicable d evaluations proposals.flatten

end Analyzer

end RuleDiagram
