import RuleDiagram.Search.Evolution
import RuleDiagram.Source.Printer

/-!
# Learning to copy

A small search: from examples alone a diagram is found that copies facts of one predicate to
another.

## Main definitions

* `CopyRule.problem`: the examples
* `CopyRule.search?`: the search
* `CopyRule.demonstration?`: the search and its result as text
-/

namespace RuleDiagram

namespace CopyRule

def source : Predicate := ⟨"p", 1⟩
def target : Predicate := ⟨"q", 1⟩

/-- The example of one number. -/
def exampleOf (n : Int) : Example := .ofLists [⟨source, [.int n], rfl⟩] [⟨target, [.int n], rfl⟩]

/-- The problem of copying the first numbers from zero on. -/
def problem (count : Int) : Problem :=
  ⟨[source], [target], (List.range count.toNat).map fun n : Nat => exampleOf n⟩

/-- A search for the copying diagram from a single leaf. -/
def search? (generations : Int) : Option (Individual × Search Congruential Congruential) := do
  let p := problem 3
  let registry ← p.registry.toOption
  let seed ← p.blank.toOption
  let config ← { Settings.fast with seed := some 7 }.check.toOption
  let e : Evolver := ⟨some registry, config, Scorer.agreement, .standard⟩
  let choices := Congruential.ofSeed 7
  let samples := Congruential.ofSeed 8
  (e.run [seed] p.examples (some generations) none choices samples).toOption

/-- A fitness with one place. -/
def fitnessText (fitness : Option Amount) : String :=
  ((fitness.bind Amount.real?).map fun x => x.fixedText 1).getD "none"

/-- One line of the record of a search. -/
def progressLine (p : ProgressEntry) : String :=
  "Generation " ++ integerText p.generation ++ ": fitness=" ++ fitnessText p.fitness ++
    " size=" ++ numeral p.size

/-- The search and its result, as text with the diagram found. -/
def demonstration? (generations : Int) : Option (Diagram × String) := do
  let (best, s) ← search? generations
  let found ← best.diagram.written.toOption
  return (best.diagram,
    unlines (["", "=== Copy rule search ===", ""] ++ s.progress.map progressLine ++
      ["", "=== Best Diagram Found ===", "Fitness: " ++ fitnessText best.fitness,
        "Signature: " ++ String.ofList (best.signature.toList.take 16) ++ "...", found]))

end CopyRule

end RuleDiagram
