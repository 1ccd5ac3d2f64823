import RuleDiagram.Mutation.Basic
import RuleDiagram.Search.Score

/-!
# Individuals and their selection

The individuals of a search are diagrams with their scores and with where they come from. The fitter
ones survive; of equally fit ones the smaller, and of those the earlier. No two survivors have the
same signature.

## Main definitions

* `Individual`
* `Standing`, `ranked`: what a selection looks at, and the order of rank
* `select`: the survivors
-/

namespace RuleDiagram

/-- A diagram with its scores, the generation it belongs to, and the mutation that made it. -/
structure Individual where
  diagram : Diagram
  fitness : Option Amount
  card : Option ScoreCard
  generation : Int
  mutation : Option Mutation

namespace Individual

/-- A diagram that is not scored yet. -/
def ofDiagram (d : Diagram) (generation : Int) (m : Option Mutation) : Individual :=
  ⟨d, none, none, generation, m⟩

def size (x : Individual) : Nat := x.diagram.size

def signature (x : Individual) : String := x.diagram.signature

/-- The individual is scored and reproduces every example exactly. -/
def perfect (x : Individual) : Bool := x.card.any ScoreCard.perfect

end Individual

/-- What a selection looks at. -/
structure Standing where
  signature : String
  size : Nat
  fitness : Option Amount

namespace Standing

/-- The fitness, negative infinity if there is none. -/
def rank (x : Standing) : Amount := x.fitness.getD (.float (.infinity true))

/-- The first standing ranks no worse than the second. -/
def noWorse (x y : Standing) : Bool :=
  y.rank.less x.rank || (!x.rank.less y.rank && decide (x.size ≤ y.size))

end Standing

/-- The standing of an individual. -/
def Individual.standing (x : Individual) : Standing := ⟨x.signature, x.size, x.fitness⟩

section

variable {α : Type}

/-- Members with their standings in the order of their rank; those of equal rank keep their
order. -/
def ranked (xs : List (Standing × α)) : List (Standing × α) :=
  xs.mergeSort fun a b => a.1.noWorse b.1

/-- The members whose signature is new: none before them and none of the given ones has it. -/
def distinctBySignature : List String → List (Standing × α) → List (Standing × α)
  | _, [] => []
  | seen, x :: rest =>
    if seen.contains x.1.signature then distinctBySignature seen rest
    else x :: distinctBySignature (x.1.signature :: seen) rest

/-- **The survivors**: the best members with distinct signatures, at most as many as fit. -/
def select (standing : α → Standing) (populationSize : Nat) (xs : List α) : List α :=
  let members := ranked (xs.map fun x => (standing x, x))
  ((distinctBySignature [] members).take populationSize).map Prod.snd

end

end RuleDiagram
