import RuleDiagram.Diagram.Basic

/-!
# Reachable nodes and bound registers

Which nodes the root leads to, and which registers are bound on every way from the root to a node. A
way binds the registers that its branches write, where it leaves them through the match edge. Both
are found by following edges from a stack of pending nodes until none is left; the number of steps
is bounded by the number of indices that can be met.

## Main definitions

* `Diagram.reachable`: the indices that the root leads to
* `Diagram.bound`: each reachable index with the registers bound on every way to it
* `Diagram.outline`: one line per node, unreachable ones marked
-/

namespace RuleDiagram

/-- Follows edges from the pending nodes, for at most the given number of steps. -/
def Diagram.reachFrom (d : Diagram) : Nat → List Int → List Int → Except EditFault (List Int)
  | 0, seen, _ => .ok seen
  | _ + 1, seen, [] => .ok seen
  | steps + 1, seen, index :: pending =>
    if index ∈ seen then d.reachFrom steps seen pending
    else
      match d.node? index with
      | none => .error (.noSuchNode index)
      | some n => d.reachFrom steps (seen ++ [index]) (n.targets.reverse ++ pending)

/-- The indices that edges lead to from the root, ascending. -/
def Diagram.reachable (d : Diagram) : Except EditFault (List Int) :=
  ascending <$> d.reachFrom (4 * d.size + 4) [] [d.root]

/-- The registers bound on entry to the indices met so far, in order of their first visit. -/
abbrev BoundTable := List (Int × List Int)

/-- An analysis under way: the table, and the indices whose entry has changed, latest first. -/
structure BoundState where
  table : BoundTable
  pending : List Int

namespace BoundState

/-- Marks an index as pending, unless it is. -/
def push (s : BoundState) (index : Int) : BoundState :=
  if index ∈ s.pending then s else { s with pending := index :: s.pending }

/-- Registers the arrival at an edge's target with some registers bound: at a first visit they are
the entry, later the entry keeps only those of them. -/
def arrive (s : BoundState) (target : Option Int) (registers : List Int) : BoundState :=
  match target with
  | none => s
  | some t =>
    match s.table.lookup t with
    | none => { s with table := s.table ++ [(t, registers)] }.push t
    | some previous =>
      let joined := previous.filter fun r => decide (r ∈ registers)
      if joined.length = previous.length then s
      else
        { s with table := s.table.map fun (i, rs) => if i = t then (i, joined) else (i, rs) }.push t

/-- Follows the edges of one pending node. -/
def visit (s : BoundState) (index : Int) (n : Node) : BoundState :=
  match n with
  | .leaf _ => s
  | .branch p m r =>
    let entry := (s.table.lookup index).getD []
    (s.arrive m (ascending (entry ++ p.writes))).arrive r entry

end BoundState

/-- Visits pending nodes, for at most the given number of steps. -/
def Diagram.boundFrom (d : Diagram) : Nat → BoundState → Except EditFault BoundTable
  | 0, s => .ok s.table
  | steps + 1, s =>
    match s.pending with
    | [] => .ok s.table
    | index :: pending =>
      match d.node? index with
      | none => .error (.noSuchNode index)
      | some n => d.boundFrom steps ({ s with pending := pending }.visit index n)

/-- The registers bound on every way from the root to each node that the root leads to. -/
def Diagram.bound (d : Diagram) : Except EditFault BoundTable :=
  d.boundFrom ((2 * d.size + 1) * (d.registers.length + 2) + 1) ⟨[(d.root, [])], [d.root]⟩

/-- Why a diagram cannot be outlined. -/
inductive OutlineFault where
  | edit (f : EditFault)
  | untextual (f : Untextual)

/-- One line per node: whether it is reachable, its pattern, and where its edges lead. -/
def Diagram.outline (d : Diagram) : Except OutlineFault (List String) := do
  let reachable ← d.reachable.mapError OutlineFault.edit
  d.nodes.zipIdx.mapM fun (n, i) => do
    let mark := if (i : Int) ∈ reachable then "✓ " else "✗ "
    let label := "n" ++ numeral i ++ (if (i : Int) = d.root then " (root)" else "")
    let shown ← n.pattern.written.mapError OutlineFault.untextual
    let target (t : Option Int) : String := (t.map fun j => "n" ++ integerText j).getD ""
    return mark ++ label ++ ": " ++
      match n with
      | .leaf _ => "output " ++ shown
      | .branch _ m r => shown ++ " -> [" ++ target m ++ "] / [" ++ target r ++ "]"

end RuleDiagram
