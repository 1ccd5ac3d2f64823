import RuleDiagram.Analysis.Candidates
import RuleDiagram.Draft.Mutation

/-!
# Analyses of drafts

A draft that is a diagram is analysed as one. For any other draft the mutations on offer are found
by the same rules, and the first stray part that is met ends the analysis. A mutation that would put
in a register other than an integer leaves a malformed draft, so it is never among those that can be
applied, and is not offered.

## Main definitions

* `DraftAnalyzer`: an analyzer, and how it combines the targets of branches of drafts
* `DraftAnalyzer.neutralCandidates`, `DraftAnalyzer.sizeCandidates`, `DraftAnalyzer.escapeGraft`,
  `DraftAnalyzer.moves`: the mutations on offer
* `DraftAnalyzer.analyze`: the analysis of a draft
-/

namespace RuleDiagram

/-- The fault of an analysis of a diagram. -/
def DraftFault.ofAnalysis : AnalysisFault → DraftFault
  | .run f => ofRun f
  | .mutation f => ofMutation f
  | .untextual f => untextual f
  | .edit f => ofEdit f
  | .noSuchExample => noSuchNode
  | .noRegistry => partless

/-- An analyzer of diagrams, and what decides whether two targets of a branch of a draft may be
combined. -/
structure DraftAnalyzer extends Analyzer where
  combines : Draft → Item → Item → Except DraftFault Bool

namespace Draft

/-! ## Evaluations -/

namespace Evaluation

/-- An evaluation gives exactly the desired outputs of an example. -/
def isCorrect (e : Option Evaluation) (x : Example) : Bool :=
  e.any fun e => ListSet.equal e.outputs x.outputs

/-- The indices that snapshots have come to in some evaluation, in order, with these snapshots. -/
def reaching (evaluations : List Evaluation) :
    Except DraftFault (List (Value × List Snapshot)) := do
  let indices := ListSet.ofList (evaluations.flatMap fun e => e.incoming.map Prod.fst)
  let indices ← arranged id indices
  return indices.map fun i => (i, evaluations.flatMap fun e => Table.get e.incoming i)

end Evaluation

namespace Snapshot

/-- The bindings of the first snapshot that hold in all of them. -/
def common : List Snapshot → List (Value × Value)
  | [] => []
  | s :: rest => s.bindings.filter fun (r, v) => rest.all fun t => t.holds r v

/-- The other registers of the first snapshot that hold the same as a register in all of them, or
nothing where it holds nothing. -/
def agreeing (snapshots : List Snapshot) (register : Value) : List Value :=
  match snapshots with
  | [] => []
  | s :: _ =>
    s.registers.filter fun r => !decide (Same r register) &&
      snapshots.all fun t => decide (Same (t.get? r) (t.get? register))

end Snapshot

/-- The first register beyond some registers that are in order. -/
def firstFresh (registers : List Value) : Except DraftFault Value :=
  match registers.getLast? with
  | some r => (Item.value r).plus 1
  | none => .ok (.int 0)

/-- The edits of one term to be tried, given the snapshots that have come to its node. -/
def Term.proposals (pool freeTargets : List Value) (snapshots : List Snapshot) (index : Int)
    (position : Nat) (t : Term) : Except DraftFault (List Mutation) :=
  match t with
  | .constant v =>
    let held := (Snapshot.common snapshots).filter fun b => decide (Same b.2 v)
    .ok <| held.filterMap (fun b => b.1.integer?.map (.bindConstant (some index) position)) ++
      (pool.filter fun w => !decide (Same w v)).map (.replaceConstant (some index) position)
  | .reference x => do
    let r ← x.key
    let held := (Snapshot.common snapshots).find? fun b => decide (Same b.1 r)
    return held.toList.map (fun b => .unbindConstant (some index) position b.2) ++
      (Snapshot.agreeing snapshots r).filterMap fun q =>
        q.integer?.map (.retargetRegister (some index) position)
  | .free x =>
    let others := freeTargets.filter fun q => !(Item.value q).same x
    .ok <| others.filterMap fun q => q.integer?.map (.replaceFreeRegister (some index) position)
  | .other _ => if freeTargets = [] then .ok [] else .error .partless

end Draft

namespace DraftAnalyzer

variable (a : DraftAnalyzer) (d : Draft)

/-- The evaluation on some facts; none if it would need too many rounds. -/
def evaluation? (facts : List Fact) : Except DraftFault (Option Draft.Evaluation) :=
  match d.evaluate facts a.limit with
  | .ok e => .ok (some e)
  | .error (.limitReached _) => .ok none
  | .error f => .error f

/-- The evaluations on the inputs of examples. -/
def evaluations (examples : List Example) : Except DraftFault (List (Option Draft.Evaluation)) :=
  examples.mapM fun x => a.evaluation? d x.inputs

/-- The constants on offer for a draft. -/
def constantPool : Except DraftFault (List Value) := do
  return before (ListSet.ofList (a.values ++ (← d.constants))) a.maxConstants

/-- The mutation can be applied to the draft, judged by evaluations. -/
def isApplicable (evaluations : List Draft.Evaluation) (m : Mutation) : Except DraftFault Bool :=
  match d.mutate a.registry (.ofMutation m) evaluations with
  | .ok _ => .ok true
  | .error (.rejected _) => .ok false
  | .error f => .error f

/-! ## Neutral mutations -/

/-- The neutral mutations that can be applied. -/
def neutralCandidates (evaluations : List Draft.Evaluation) : Except DraftFault (List Mutation) :=
  match d.diagram? with
  | some e =>
    (a.toAnalyzer.neutralCandidates e (evaluations.map Draft.Evaluation.integral)).mapError
      .ofAnalysis
  | none => do
    let pool ← a.constantPool d
    let registers ← d.registers
    let fresh ← (Item.value (← Draft.firstFresh registers)).index
    let freeTargets := registers ++ (integersFrom fresh a.freshRegisters).map Value.int
    let proposals ← (← Draft.Evaluation.reaching evaluations).mapM fun (index, snapshots) => do
      let p ← (← d.node (.value index)).pattern
      let i ← (Item.value index).index
      let found ← p.terms.zipIdx.mapM fun (t, position) =>
        t.proposals pool freeTargets snapshots i position
      return found.flatten
    proposals.flatten.filterM (a.isApplicable d evaluations)

/-! ## Size-changing mutations -/

/-- What a node offers; redirections only if they are wanted. -/
def nodeCandidates (redirecting : Bool) (index : Nat) (n : Draft.Node) :
    Except DraftFault SizeCandidates :=
  match n with
  | .branch p m r => do
    let splices := [Edge.onMatch, .onRefute].map (Mutation.spliceEdge (some index))
    let collapse :=
      if p.isPassThrough && m.same r then [Mutation.collapsePassThrough (some index)] else []
    let always := splices ++ collapse
    if m.isAbsent || r.isAbsent then return ⟨always, []⟩
    if m.same r then
      return ⟨always ++ if m.same (.int index) then [] else [.duplicateNode (some index)], []⟩
    let first ← d.node m
    let second ← d.node r
    if first.same second then return ⟨always ++ [.mergeNodes (some index)], []⟩
    if !redirecting then return ⟨always, []⟩
    let combine ← a.combines d m r
    return ⟨always, if combine then [.redirectEdge (some index) .onRefute m.integer?] else []⟩
  | _ => .ok ⟨[], []⟩

/-- The size-changing mutations that can be applied, with the redirections that go with them if they
are wanted. -/
def sizeCandidates (redirecting : Bool) : Except DraftFault SizeCandidates :=
  match d.diagram? with
  | some e => (a.toAnalyzer.sizeCandidates e).mapError .ofAnalysis
  | none => do
    let nodes ← d.nodes.zipIdx.mapM fun (n, i) => a.nodeCandidates d redirecting i n
    let proposals := .spliceEdge none .root :: nodes.flatMap SizeCandidates.sizing
    return ⟨← proposals.filterM (a.isApplicable d []), nodes.flatMap SizeCandidates.redirections⟩

/-! ## Escape grafts -/

/-- The examples other than the one at an index that the evaluations get right. -/
def keptExamples (examples : List Example) (evaluations : List (Option Draft.Evaluation))
    (index : Int) : List Example :=
  ((evaluations.zip examples).zipIdx.filter fun ((e, x), j) =>
    decide ((j : Int) ≠ index) && Draft.Evaluation.isCorrect e x).map fun ((_, x), _) => x

/-- A draft gets all examples of a list right. -/
def reproducesAll (d : Draft) : List Example → Except DraftFault Bool
  | [] => .ok true
  | x :: rest => do
    if Draft.Evaluation.isCorrect (← a.evaluation? d x.inputs) x then reproducesAll d rest
    else return false

/-- The graft for the example at an index. -/
def escapeGraft (examples : List Example) (evaluations : List (Option Draft.Evaluation))
    (index : Int) : Except DraftFault (Option Mutation) :=
  match d.diagram? with
  | some e =>
    (a.toAnalyzer.escapeGraft e examples
      (evaluations.map fun x => x.map Draft.Evaluation.integral) index).mapError .ofAnalysis
  | none => do
    let some mended := (place? examples.length index).bind fun i => examples[i]?
      | throw .noSuchNode
    let some current := (place? evaluations.length index).bind fun i => evaluations[i]?
      | throw .noSuchNode
    let kept := keptExamples examples evaluations index
    let direct := current.any fun e => ListSet.subset e.outputs mended.outputs
    let graft ← (graftFor d.size (← d.root.index) direct mended kept).mapError .untextual
    match d.mutate a.registry (.ofMutation graft) [] with
    | .error (.rejected _) => return none
    | .error f => throw f
    | .ok grafted => return if ← a.reproducesAll grafted (mended :: kept) then some graft else none

/-! ## Random moves -/

/-- The terms that may take the place of the one at a position, given the registers bound on
entry. -/
def termOptions (n : Draft.Node) (p : Draft.Pattern) (position : Nat) (bound : List Value) :
    Except DraftFault (List Draft.Term) := do
  let written ← ((p.terms.take position).filterMap Draft.Term.written?).mapM Item.key
  let constants ← a.constantPool d
  let readable ← arranged id (ListSet.ofList (bound ++ written))
  let free ← if n.isBranch then do
      let registers ← d.registers
      pure ((← Draft.firstFresh registers) :: registers)
    else pure []
  let options : List Draft.Term := constants.map .constant ++
    readable.map (fun r => .reference (.value r)) ++ free.map fun r => .free (.value r)
  return options.filter fun t => !p.terms[position]?.any t.same

section

variable {σ : Type} [RandomSource σ]

/-- A random replacement of a term in one of the patterns of a list with their indices. -/
def randomTerm (bound : Draft.BoundTable) (patterns : List (Draft.Pattern × Nat)) (s : σ) :
    Except DraftFault (Option Mutation × σ) := do
  let (chosen, s) := choose? patterns s
  let some (p, index) := chosen | return (none, s)
  let (position, s) := choose? (List.range p.arity) s
  let some position := position | return (none, s)
  let entry := (bound.find? fun e => decide (Same e.1 (.int index))).map Prod.snd
  let options ← a.termOptions d (← d.node (.int index)) p position (entry.getD [])
  let (t, s) := choose? options s
  return ((t.bind (Draft.Term.read Item.integer?)).map (.replaceTerm (some index) position), s)

/-- A random replacement of a predicate in one of the patterns of a list with their indices. -/
def randomPredicate (patterns : List (Draft.Pattern × Nat)) (s : σ) :
    Except DraftFault (Option Mutation × σ) :=
  match a.registry with
  | none => .error .partless
  | some registry =>
    let (chosen, s) := choose? patterns s
    match chosen with
    | none => .ok (none, s)
    | some (p, index) =>
      let alternatives :=
        (registry.withArity p.arity).filter fun q => decide (some q ≠ p.predicate)
      let (q, s) := choose? alternatives s
      .ok (q.map fun q => .replacePredicate (some index) (some q) none, s)

/-- A random move; none if the draft has no room for any, or if the one drawn has no alternative. -/
def randomMove (bound : Draft.BoundTable) (s : σ) : Except DraftFault (Option Mutation × σ) := do
  let patterns := (← d.nodes.mapM Draft.Node.pattern).zipIdx
  let branches := (d.nodes.zipIdx.filter fun (n, _) => n.isBranch).map Prod.snd
  let termed := patterns.filter fun (p, _) => !p.terms.isEmpty
  let patterned := patterns.filter fun (p, i) => !(p.isPassThrough && branches.contains i)
  let (kind, s) := choose? (moveKinds branches (termed.map Prod.snd) (patterned.map Prod.snd)) s
  match kind with
  | none => return (none, s)
  | some .redirect => return randomRedirect branches d.size s
  | some .term => a.randomTerm d bound termed s
  | some .predicate => a.randomPredicate patterned s

/-- Distinct moves that can be applied, as many as the budget asks for if four times as many draws
bring them. -/
def moves (s : σ) : Except DraftFault (List Mutation × σ) :=
  match d.diagram? with
  | some e => (a.toAnalyzer.moves e s).mapError .ofAnalysis
  | none => do
    let bound ← d.bound
    movesFrom (a.randomMove d bound) (a.isApplicable d []) a.behaviorBudget (4 * a.behaviorBudget)
      [] s

/-! ## Analyses -/

/-- **The analysis of a draft.** Evaluations that are known may be given; they are used if there is
one for each example. -/
def analyze (examples : List Example) (known : Option (List (Option Draft.Evaluation))) (s : σ) :
    Except DraftFault (Analysis × σ) := do
  let evaluations ← match known.filter fun es => decide (es.length = examples.length) with
    | some es => pure es
    | none => a.evaluations d examples
  let correct := List.zipWith Draft.Evaluation.isCorrect evaluations examples
  let terminated := evaluations.filterMap id
  let neutral ← if terminated.isEmpty then pure [] else a.neutralCandidates d terminated
  let sizes ← a.sizeCandidates d true
  let (order, s) := shuffle (failingPlaces correct) s
  let attempt (place : Nat) := a.escapeGraft d examples evaluations place
  let grafts ← graftsFor attempt a.escapeBudget order
  let (moves, s) ← a.moves d s
  let candidates := neutral ++ sizes.sizing ++ grafts ++ sizes.redirections ++ moves
  return (⟨evaluations.map fun e => e.map Draft.Evaluation.integral, correct, candidates⟩, s)

end

end DraftAnalyzer

end RuleDiagram
