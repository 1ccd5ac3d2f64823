import RuleDiagram.Analysis.Analyzer
import RuleDiagram.Random.Source

/-!
# Escape grafts

A graft puts a new root in front of a diagram that makes one more example correct. The new root
leads to a gate, which tests every input fact of the example and then emits its outputs, and to the
old root: directly, where the old outputs on these inputs are wanted anyway, and otherwise through
witnesses, one for each example that is correct so far, each testing a fact that the example to be
mended lacks. A correct example without such a fact gets a gate of its own.

Parts of a graft are built from the index of their first node upwards.

## Main definitions

* `Part`: nodes to be appended, and the index at which to enter them
* `fanOut`, `gate`: parts that lead to several targets, and that answer an example
* `Analyzer.escapeGraft`: the graft for an example, if there is one that does no harm
* `Analyzer.escapeCandidates`: grafts for examples in random order
-/

namespace RuleDiagram

/-- Nodes to be appended from some index on, and the index at which to enter them, if any. -/
structure Part where
  nodes : List Node
  entry : Option Int

/-- Pass-through branches that lead to all targets, appended from the given index on. -/
def fanOut (next : Int) : List Int → Part
  | [] => ⟨[], none⟩
  | [target] => ⟨[], some target⟩
  | target :: rest =>
    let part := fanOut next rest
    ⟨part.nodes ++ [.branch .passThrough (some target) part.entry], some (next + part.nodes.length)⟩

/-- Branches that test facts one after another on the way to an entry, appended from the given index
on. -/
def testAll (next : Int) (facts : List Fact) (entry : Option Int) : Part :=
  match facts with
  | [] => ⟨[], entry⟩
  | f :: rest =>
    let part := testAll next rest entry
    ⟨part.nodes ++ [.branch f.asPattern part.entry none], some (next + part.nodes.length)⟩

/-- Branches that test all inputs of an example and lead to leaves that emit its outputs; nothing if
there are none. -/
def gate (next : Int) (e : Example) : Except Untextual Part :=
  if e.outputs = [] then .ok ⟨[], none⟩
  else do
    let leaves := (← sortFacts e.outputs).map fun f => Node.leaf f.asPattern
    let fan := fanOut (next + leaves.length) (integersFrom next leaves.length)
    let emitting := leaves ++ fan.nodes
    let tests := testAll (next + emitting.length) (← sortFacts e.inputs) fan.entry
    return ⟨emitting ++ tests.nodes, tests.entry⟩

/-- The way into the old root that a correct example keeps open: through a fact that the example to
be mended lacks, or else through a gate of its own. -/
def route (next root : Int) (mended kept : Example) : Except Untextual Part := do
  match ← sortFacts (ListSet.diff kept.inputs mended.inputs) with
  | [] => gate next kept
  | witness :: _ => return ⟨[.branch witness.asPattern (some root) none], some next⟩

/-- The ways that all correct examples keep open, and where to enter them. -/
def routes (next root : Int) (mended : Example) :
    List Example → Except Untextual (List Node × List Int)
  | [] => .ok ([], [])
  | kept :: rest => do
    let part ← route next root mended kept
    let (nodes, entries) ← routes (next + part.nodes.length) root mended rest
    return (part.nodes ++ nodes, part.entry.toList ++ entries)

/-- The way into the old root. -/
def oldRoot (next root : Int) (direct : Bool) (mended : Example) (kept : List Example) :
    Except Untextual Part :=
  if direct then .ok ⟨[], some root⟩
  else do
    let (nodes, entries) ← routes next root mended kept
    let fan := fanOut (next + nodes.length) entries
    return ⟨nodes ++ fan.nodes, fan.entry⟩

/-- The graft that makes an example correct beside those that are kept, for a diagram of the given
size and root. -/
def graftFor (base oldIndex : Int) (direct : Bool) (mended : Example) (kept : List Example) :
    Except Untextual Mutation := do
  let front ← gate base mended
  let back ← oldRoot (base + front.nodes.length) oldIndex direct mended kept
  let nodes := front.nodes ++ back.nodes
  let fan := fanOut (base + nodes.length) (front.entry.toList ++ back.entry.toList)
  let nodes := nodes ++ fan.nodes
  match fan.entry with
  | some root => return .graft base nodes root
  | none => return .graft base (nodes ++ [.branch .passThrough none none]) (base + nodes.length)

/-- The grafts that attempts at some places bring in turn, as many as the budget allows; attempts
that bring none use up nothing. -/
def graftsFor {ε : Type} (attempt : Nat → Except ε (Option Mutation)) :
    Nat → List Nat → Except ε (List Mutation)
  | 0, _ => .ok []
  | _ + 1, [] => .ok []
  | budget + 1, place :: rest => do
    match ← attempt place with
    | some graft => return graft :: (← graftsFor attempt budget rest)
    | none => graftsFor attempt (budget + 1) rest

namespace Analyzer

/-- The examples other than the one at an index that the evaluations get right. -/
def keptExamples (examples : List Example) (evaluations : List (Option Evaluation)) (index : Int) :
    List Example :=
  ((evaluations.zip examples).zipIdx.filter fun ((e, x), j) =>
    decide ((j : Int) ≠ index) && isCorrect e x).map fun ((_, x), _) => x

/-- A diagram gets an example right. -/
def reproduces (a : Analyzer) (d : Diagram) (x : Example) : Except AnalysisFault Bool := do
  return isCorrect (← (evaluation? a.limit d x.inputs).mapError .run) x

/-- A diagram gets all examples of a list right. -/
def reproducesAll (a : Analyzer) (d : Diagram) : List Example → Except AnalysisFault Bool
  | [] => .ok true
  | x :: rest => do
    if ← a.reproduces d x then a.reproducesAll d rest else return false

/-- **The graft for the example at an index**: one that makes it correct and keeps all examples that
are correct so far. -/
def escapeGraft (a : Analyzer) (d : Diagram) (examples : List Example)
    (evaluations : List (Option Evaluation)) (index : Int) :
    Except AnalysisFault (Option Mutation) := do
  let some mended := (place? examples.length index).bind fun i => examples[i]?
    | throw .noSuchExample
  let some current := (place? evaluations.length index).bind fun i => evaluations[i]?
    | throw .noSuchExample
  let kept := keptExamples examples evaluations index
  let direct := current.any fun e => ListSet.subset e.outputs mended.outputs
  let graft ← (graftFor d.size d.root direct mended kept).mapError .untextual
  match graft.apply a.registry d [] with
  | .error (.invalid _) => return none
  | .error f => throw (.mutation f)
  | .ok grafted => return if ← a.reproducesAll grafted (mended :: kept) then some graft else none

/-- Grafts for failing examples, tried in random order. -/
def escapeCandidates {σ : Type} [RandomSource σ] (a : Analyzer) (d : Diagram)
    (examples : List Example) (evaluations : List (Option Evaluation)) (failing : List Nat)
    (s : σ) : Except AnalysisFault (List Mutation × σ) := do
  let (order, s) := shuffle failing s
  let attempt (place : Nat) := a.escapeGraft d examples evaluations place
  return (← graftsFor attempt a.escapeBudget order, s)

end Analyzer

end RuleDiagram
