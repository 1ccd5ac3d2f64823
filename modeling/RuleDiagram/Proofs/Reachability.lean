import RuleDiagram.Run.Evaluation

/-!
# Reachability in a graph

A diagram with a cycle: it joins edges one by one to what has been reached, and sends what it finds
back to where it was found.

## Main definitions

* `Reachability.diagram`: the nodes of a graph that a start leads to
* `Reachability.circle`: a graph
-/

namespace RuleDiagram

namespace Reachability

def start : Predicate := ⟨"start", 1⟩
def edge : Predicate := ⟨"edge", 2⟩
def reach : Predicate := ⟨"reach", 2⟩

/-- What the edges lead to from a start. The last branch joins one more edge to what has been
reached, and sends back. -/
def diagram : Diagram :=
  ⟨[.branch ⟨some start, [.free 0]⟩ (some 1) none,
    .branch ⟨some edge, [.reference 0, .free 1]⟩ (some 2) none,
    .branch .passThrough (some 3) (some 4),
    .leaf ⟨some reach, [.reference 0, .reference 1]⟩,
    .branch ⟨some edge, [.reference 1, .free 1]⟩ (some 2) none], 0⟩

/-- The start of the graphs here. -/
def origin : Fact := ⟨start, [.text "a"], rfl⟩

/-- An edge of a graph. -/
def edgeTo (source target : String) : Fact := ⟨edge, [.text source, .text target], rfl⟩

/-- Three edges in a circle, and a start. -/
def circle : List Fact := [origin, edgeTo "a" "b", edgeTo "b" "c", edgeTo "c" "a"]

end Reachability

end RuleDiagram
