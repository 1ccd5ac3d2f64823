import RuleDiagram.Diagram.Flow
import RuleDiagram.Draft.Query

/-!
# Reachable nodes and bound registers of drafts

The edges of a draft are followed as those of a diagram, until a stray part is met. Indices that are
the same count as one and keep their first form.

## Main definitions

* `Draft.reachable`: the indices that the root leads to
* `Draft.bound`: each reachable index with the registers bound on every way to it
* `Draft.outline`: one line per node
-/

namespace RuleDiagram

namespace Draft

/-- The targets of a node that are not among the given indices. -/
def Node.newTargets (n : Node) (seen : List Value) : Except DraftFault (List Item) := do
  let targets := ((← n.children).map Prod.snd).filter fun t => !t.isAbsent
  targets.filterM fun t => do return !ListSet.has seen (← t.key)

/-- Follows edges from the pending indices, for at most the given number of steps. -/
def reachFrom (d : Draft) : Nat → List Value → List Item → Except DraftFault (List Value)
  | 0, seen, _ => .ok seen
  | _ + 1, seen, [] => .ok seen
  | steps + 1, seen, x :: pending => do
    let index ← x.key
    if ListSet.has seen index then d.reachFrom steps seen pending
    else
      let seen := seen ++ [index]
      let targets ← (← d.node x).newTargets seen
      d.reachFrom steps seen (targets.reverse ++ pending)

/-- The indices that edges lead to from the root, in order. -/
def reachable (d : Draft) : Except DraftFault (List Value) := do
  arranged id (← d.reachFrom (4 * d.size + 4) [] [d.root])

/-- Registers bound on entry to the indices met so far, in order of their first visit. -/
abbrev BoundTable := List (Value × List Value)

/-- An analysis under way: the table, and the indices whose entry has changed, latest first. -/
structure BoundState where
  table : BoundTable
  pending : List Value

namespace BoundState

/-- The registers bound on entry to an index. -/
def entry? (s : BoundState) (index : Value) : Option (List Value) :=
  (s.table.find? fun e => decide (Same e.1 index)).map Prod.snd

/-- Marks an index as pending, unless it is. -/
def push (s : BoundState) (index : Value) : BoundState :=
  if ListSet.has s.pending index then s else { s with pending := index :: s.pending }

/-- Registers the arrival at an edge's target with some registers bound. -/
def arrive (s : BoundState) (target : Item) (registers : List Value) :
    Except DraftFault BoundState := do
  if target.isAbsent then return s
  let index ← target.key
  match s.entry? index with
  | none => return { s with table := s.table ++ [(index, registers)] }.push index
  | some previous =>
    let joined := ListSet.inter previous registers
    if joined.length = previous.length then return s
    let table := s.table.map fun (i, rs) => if Same i index then (i, joined) else (i, rs)
    return { s with table := table }.push index

/-- Follows the edges of one pending node. -/
def visit (s : BoundState) (index : Value) : Node → Except DraftFault BoundState
  | .branch p m r => do
    let entry := (s.entry? index).getD []
    let written ← p.writes
    (← s.arrive m (ListSet.union entry written)).arrive r entry
  | _ => .ok s

end BoundState

/-- Visits pending nodes, for at most the given number of steps. -/
def boundFrom (d : Draft) : Nat → BoundState → Except DraftFault BoundTable
  | 0, s => .ok s.table
  | steps + 1, s =>
    match s.pending with
    | [] => .ok s.table
    | index :: pending => do
      let s ← BoundState.visit { s with pending := pending } index (← d.node (.value index))
      d.boundFrom steps s

/-- The number of terms of all patterns. -/
def termCount (d : Draft) : Nat :=
  d.nodes.foldl (fun count n => count + ((n.pattern.map Pattern.arity).toOption.getD 0)) 0

/-- The registers bound on every way from the root to each node that the root leads to. -/
def bound (d : Draft) : Except DraftFault BoundTable :=
  match d.diagram? with
  | some e =>
    (e.bound.map fun table => table.map fun (i, rs) => (.int i, rs.map .int)).mapError .ofEdit
  | none => do
    d.boundFrom ((2 * d.size + 1) * (d.termCount + 2) + 1) ⟨[(← d.root.key, [])], [← d.root.key]⟩

/-- The same in the order of the indices, and for each index of the registers. -/
def boundInOrder (d : Draft) : Except DraftFault BoundTable := do
  (← arranged Prod.fst (← d.bound)).mapM fun (i, rs) => do return (i, ← arranged id rs)

/-! ## Outlines -/

/-- The item of an optional target within text. -/
def shownTarget (x : Item) : String := if x.isAbsent then "" else "n" ++ x.shown

/-- One line per node: whether it is reachable, its pattern, and where its edges lead. -/
def outline (d : Draft) : Except DraftFault (List String) := do
  let reachable ← d.reachable
  d.nodes.zipIdx.mapM fun (n, i) => do
    let mark := if ListSet.has reachable (.int i) then "✓ " else "✗ "
    let isRoot := (Item.int i).same d.root
    let label := mark ++ "n" ++ numeral i ++ (if isRoot then " (root): " else ": ")
    let pattern ← (← n.pattern).written.mapError .untextual
    return label ++
      match n with
      | .branch _ m r => pattern ++ " -> [" ++ shownTarget m ++ "] / [" ++ shownTarget r ++ "]"
      | _ => "output " ++ pattern

end Draft

end RuleDiagram
