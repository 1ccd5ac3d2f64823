import RuleDiagram.Analysis.Analyzer
import RuleDiagram.Random.Source

/-!
# Random moves

Mutations that may change behaviour are not listed but drawn: an edge is redirected, a term
replaced, or the predicate of a pattern replaced by another one of its arity.

## Main definitions

* `MoveKind`: the three kinds of moves
* `movesFrom`: repeated draws of moves
* `Analyzer.randomMove`: one move
* `Analyzer.moves`: distinct moves that can be applied, up to the budget
-/

namespace RuleDiagram

/-- The kinds of moves. -/
inductive MoveKind where
  | redirect
  | term
  | predicate

/-- The kinds of moves for which there are places: branches, nodes whose patterns have terms, and
nodes that have a predicate to be replaced. -/
def moveKinds (branches termed patterned : List Nat) : List MoveKind :=
  (if branches = [] then [] else [.redirect]) ++ (if termed = [] then [] else [.term]) ++
    (if patterned = [] then [] else [.predicate])

section

variable {σ : Type}

/-- A random redirection of an edge of one of the branches, given the number of nodes. -/
def randomRedirect [RandomSource σ] (branches : List Nat) (size : Nat) (s : σ) :
    Option Mutation × σ :=
  let (index, s) := choose? branches s
  let (e, s) := choose? [Edge.onMatch, Edge.onRefute] s
  let (target, s) := choose? (none :: (integersFrom 0 size).map some) s
  match index, e, target with
  | some index, some e, some target => (some (.redirectEdge (some index) e target), s)
  | _, _, _ => (none, s)

/-- Draws moves, at most as many times as given, until as many distinct ones as wanted are found
that can be applied. -/
def movesFrom {ε : Type} (draw : σ → Except ε (Option Mutation × σ))
    (isApplicable : Mutation → Except ε Bool) (wanted : Nat) :
    Nat → List Mutation → σ → Except ε (List Mutation × σ)
  | 0, found, s => .ok (found, s)
  | attempts + 1, found, s =>
    if wanted ≤ found.length then .ok (found, s)
    else do
      let (move, s) ← draw s
      match move with
      | none => movesFrom draw isApplicable wanted attempts found s
      | some m =>
        let isNew ← if ListSet.has found m then pure false else isApplicable m
        movesFrom draw isApplicable wanted attempts (if isNew then found ++ [m] else found) s

end

namespace Analyzer

/-- The indices of the nodes with a property. -/
def indicesWhere (d : Diagram) (property : Node → Bool) : List Nat :=
  (d.nodes.zipIdx.filter fun (n, _) => property n).map Prod.snd

/-- The indices of the branches. -/
def branches (d : Diagram) : List Nat := indicesWhere d Node.isBranch

/-- The indices of the nodes whose patterns have terms. -/
def termed (d : Diagram) : List Nat := indicesWhere d fun n => !n.pattern.terms.isEmpty

/-- The indices of the nodes other than pass-through branches. -/
def patterned (d : Diagram) : List Nat := indicesWhere d fun n => !n.isPassThrough

/-- The terms that may take the place of the one at a position, given the registers
bound on entry. -/
def termOptions (a : Analyzer) (d : Diagram) (n : Node) (position : Nat) (bound : List Int) :
    List Term :=
  let readable := ascending (bound ++ (n.pattern.terms.take position).filterMap Term.written?)
  let free := if n.isBranch then (firstFresh d :: d.registers).map Term.free else []
  let options := (a.constantPool d).map Term.constant ++ readable.map Term.reference ++ free
  options.filter fun t => !decide (Same (some t) n.pattern.terms[position]?)

section

variable {σ : Type} [RandomSource σ]

/-- A random replacement of a term. -/
def randomTerm (a : Analyzer) (d : Diagram) (bound : BoundTable) (s : σ) : Option Mutation × σ :=
  let (index, s) := choose? (termed d) s
  match index.bind fun i => d.nodes[i]?.map fun n => (i, n) with
  | none => (none, s)
  | some (index, n) =>
    let (position, s) := choose? (List.range n.pattern.arity) s
    match position with
    | none => (none, s)
    | some position =>
      let (t, s) := choose? (a.termOptions d n position ((bound.lookup (index : Int)).getD [])) s
      (t.map (.replaceTerm (some index) position), s)

/-- A random replacement of a predicate. -/
def randomPredicate (registry : Registry) (d : Diagram) (s : σ) : Option Mutation × σ :=
  let (index, s) := choose? (patterned d) s
  match index.bind fun i => d.nodes[i]?.map fun n => (i, n.pattern) with
  | none => (none, s)
  | some (index, p) =>
    let alternatives := (registry.withArity p.arity).filter fun q => decide (some q ≠ p.predicate)
    let (q, s) := choose? alternatives s
    (q.map fun q => .replacePredicate (some index) (some q) none, s)

/-- A random move; none if the diagram has no room for any, or if the one drawn has no
alternative. -/
def randomMove (a : Analyzer) (d : Diagram) (bound : BoundTable) (s : σ) :
    Except AnalysisFault (Option Mutation × σ) :=
  let (kind, s) := choose? (moveKinds (branches d) (termed d) (patterned d)) s
  match kind with
  | none => .ok (none, s)
  | some .redirect => .ok (randomRedirect (branches d) d.size s)
  | some .term => .ok (a.randomTerm d bound s)
  | some .predicate =>
    match a.registry with
    | none => .error .noRegistry
    | some r => .ok (randomPredicate r d s)

/-- Distinct moves that can be applied, as many as the budget asks for if four times as many draws
bring them. -/
def moves (a : Analyzer) (d : Diagram) (s : σ) : Except AnalysisFault (List Mutation × σ) := do
  let bound ← d.bound.mapError AnalysisFault.edit
  movesFrom (a.randomMove d bound) (a.isApplicable d []) a.behaviorBudget (4 * a.behaviorBudget)
    [] s

end

end Analyzer

end RuleDiagram
