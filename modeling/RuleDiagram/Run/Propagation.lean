import RuleDiagram.Run.Unification

/-!
# Propagation through one branch

A branch sends each snapshot on for each fact of its predicate: extended to its match edge where
they unify, unchanged to its refute edge where they do not. A pass-through branch sends every
snapshot to both edges.

## Main definitions

* `Delivery`: what leaves a branch through its two edges
* `propagate`: the deliveries of a branch, with repetitions
-/

namespace RuleDiagram

/-- What leaves a branch: the snapshots on its match edge and those on its refute edge. -/
structure Delivery where
  onMatch : List Snapshot
  onRefute : List Snapshot

namespace Delivery

def none : Delivery := ⟨[], []⟩

def append (a b : Delivery) : Delivery := ⟨a.onMatch ++ b.onMatch, a.onRefute ++ b.onRefute⟩

end Delivery

/-- The facts of a predicate, in order. -/
def candidates (p : Predicate) (facts : List Fact) : List Fact :=
  facts.filter fun f => decide (f.predicate = p)

/-- What one snapshot and the facts of the pattern's predicate deliver. -/
def meet (p : Pattern) (facts : List Fact) (s : Snapshot) : Delivery :=
  ⟨facts.filterMap fun f => unify p.terms f.values s,
    (facts.filter fun f => (unify p.terms f.values s).isNone).map fun _ => s⟩

/-- What a branch with the given pattern delivers, snapshot by snapshot and for each snapshot fact
by fact. -/
def propagate (p : Pattern) (facts : List Fact) (snapshots : List Snapshot) : Delivery :=
  match p.predicate with
  | none => ⟨snapshots, snapshots⟩
  | some q =>
    let facts := candidates q facts
    ⟨snapshots.flatMap fun s => (meet p facts s).onMatch,
      snapshots.flatMap fun s => (meet p facts s).onRefute⟩

end RuleDiagram
