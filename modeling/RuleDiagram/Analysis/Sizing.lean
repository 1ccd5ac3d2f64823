import RuleDiagram.Analysis.Analyzer

/-!
# Size-changing mutations on offer

Every edge can be spliced; pass-through branches may be collapsed, shared targets duplicated and
equal targets merged. Where the targets of a branch differ and yet may be combined, its refute edge
can be redirected to the target of its match edge, which may change behaviour.

## Main definitions

* `SizeCandidates`
* `Analyzer.sizeCandidates`
-/

namespace RuleDiagram

/-- Mutations that change the size of a diagram, and redirections of edges that may change its
behaviour. -/
structure SizeCandidates where
  sizing : List Mutation
  redirections : List Mutation

namespace Analyzer

/-- What a branch with two targets offers. -/
def targetCandidates (a : Analyzer) (d : Diagram) (index : Nat) (m r : Int) :
    Except AnalysisFault SizeCandidates :=
  if m = r then .ok ⟨if m = index then [] else [.duplicateNode (some index)], []⟩
  else do
    let first ← (d.node m).mapError .edit
    let second ← (d.node r).mapError .edit
    if Same first second then return ⟨[.mergeNodes (some index)], []⟩
    let combine ← (a.combiner d m r).mapError .edit
    return ⟨[], if combine then [.redirectEdge (some index) .onRefute (some m)] else []⟩

/-- What a node offers. -/
def nodeCandidates (a : Analyzer) (d : Diagram) (index : Nat) (n : Node) :
    Except AnalysisFault SizeCandidates :=
  match n with
  | .leaf _ => .ok ⟨[], []⟩
  | .branch p m r => do
    let splices := [Edge.onMatch, .onRefute].map (Mutation.spliceEdge (some index))
    let collapse :=
      if p.isPassThrough ∧ m = r then [Mutation.collapsePassThrough (some index)] else []
    let targets ← match m, r with
      | some m, some r => a.targetCandidates d index m r
      | _, _ => pure ⟨[], []⟩
    return ⟨splices ++ collapse ++ targets.sizing, targets.redirections⟩

/-- The size-changing mutations that can be applied, with the redirections that go with them. -/
def sizeCandidates (a : Analyzer) (d : Diagram) : Except AnalysisFault SizeCandidates := do
  let nodes ← d.nodes.zipIdx.mapM fun (n, i) => a.nodeCandidates d i n
  let proposals := .spliceEdge none .root :: nodes.flatMap SizeCandidates.sizing
  return ⟨← a.keepApplicable d [] proposals, nodes.flatMap SizeCandidates.redirections⟩

end Analyzer

end RuleDiagram
