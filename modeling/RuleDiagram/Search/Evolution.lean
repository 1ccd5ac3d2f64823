import RuleDiagram.Analysis.Candidates
import RuleDiagram.Guide.Basic
import RuleDiagram.Search.Config
import RuleDiagram.Search.Sampling
import RuleDiagram.Search.Selection

/-!
# The search loop

A search starts from well-formed diagrams. In each generation every survivor is analyzed and some of
the mutations on offer are applied to it: all grafts, and a weighted sample of the rest. Offspring
with a new signature are scored, and the best of old and new survive. The search ends when a
survivor reproduces every example, or when its generations are used up.

A search draws from two sources: one for analyses and choices, one for weighted samples.

## Main definitions

* `Evolver`: what a search runs with
* `Search`: a search under way
* `Evolver.offspring`, `Evolver.generation`: the offspring of one individual, and one generation
* `Evolver.run`: a whole search
-/

namespace RuleDiagram

/-- What a search runs with. -/
structure Evolver where
  registry : Option Registry
  config : Config
  scorer : Scorer
  weights : Weights

/-- Why a search fails. -/
inductive SearchFault where
  | negativeSeed
  | malformedSeed (f : Fault)
  | noSeeds
  | untextual (f : Untextual)
  | run (f : RunFault)
  | analysis (f : AnalysisFault)
  | mutation (m : Mutation) (f : MutationFault)
  | sampling (f : SamplingFault)
  | guide (f : GuideFault FeatureFault)

namespace SearchFault

/-- What is said of a search without seeds. -/
def noSeedsMessage : String := "The initial population is empty."

/-- What is said of a source of random numbers with a negative seed. -/
def negativeSeedMessage : String := "expected non-negative integer"

end SearchFault

/-- One line of the record of a search: a generation with the size and the fitness of its best. -/
structure ProgressEntry where
  generation : Int
  size : Nat
  fitness : Option Amount

/-- A search under way. -/
structure Search (σ τ : Type) where
  population : List Individual
  generation : Int
  /-- The signatures of all individuals that have been scored. -/
  seen : List String
  progress : List ProgressEntry
  guide : Option Guide
  choices : σ
  samples : τ

/-- The fitness of the best of each generation. -/
def Search.history {σ τ : Type} (s : Search σ τ) : List (Option Amount) :=
  s.progress.map ProgressEntry.fitness

namespace Evolver

/-- What a search runs with, unless its sources cannot be seeded. -/
def create (registry : Option Registry) (config : Config) (scorer : Scorer) (weights : Weights) :
    Except SearchFault Evolver :=
  if config.seed.any fun s => decide (s < 0) then .error .negativeSeed
  else .ok ⟨registry, config, scorer, weights⟩

/-! ## Individuals -/

/-- The analyzer of a search on examples. -/
def analyzer (e : Evolver) (values : List Value) : Analyzer :=
  { registry := e.registry
    limit := e.config.limit
    combiner := Diagram.samePattern
    values := values
    maxConstants := e.config.maxConstants
    behaviorBudget := e.config.behaviorBudget.toNat
    escapeBudget := e.config.escapeBudget.toNat
    freshRegisters := e.config.freshRegisters.toNat }

/-- How a search scores on examples. -/
def scoring (e : Evolver) (examples : List Example) : Scoring :=
  ⟨examples, e.scorer, .standard, e.config.limit⟩

/-- An individual with its scores. -/
def scored (s : Scoring) (x : Individual) : Except SearchFault Individual := do
  let card ← (s.card x.diagram).mapError .run
  return { x with card := some card, fitness := some (.float card.fitness) }

/-- The children that mutations make of a diagram, those that are rejected left out. -/
def children (e : Evolver) (generation : Int) (d : Diagram) (evaluations : List Evaluation) :
    List Mutation → Except SearchFault (List Individual)
  | [] => .ok []
  | m :: rest => do
    let child ← match m.apply e.registry d evaluations with
      | .ok child => pure [Individual.ofDiagram child (generation + 1) (some m)]
      | .error (.invalid _) => pure []
      | .error f => throw (.mutation m f)
    return child ++ (← e.children generation d evaluations rest)

section

variable {σ τ : Type} [RandomSource σ] [RandomSource τ]

/-! ## Offspring -/

/-- Some of the children sampled, by the choice of a guide if there is one and if there are too
many. -/
def choose (guide : Option Guide) (count : Nat) (xs : List Individual) (s : σ) :
    Except SearchFault (List Individual × σ) := do
  match guide with
  | some g =>
    if count < xs.length then
      let (places, s) ← (g.select (xs.map Individual.diagram) count s).mapError SearchFault.guide
      return ((places.filterMap fun i => xs[i]?).take count, s)
    else return (xs, s)
  | none => return (xs.take count, s)

/-- The offspring of an individual. -/
def offspring (e : Evolver) (examples : List Example) (a : Analyzer) (s : Search σ τ)
    (parent : Individual) :
    Except SearchFault (List Individual × Search σ τ) := do
  let known := parent.card.map ScoreCard.evaluations
  let (found, choices) ←
    (a.analyze parent.diagram examples known s.choices).mapError SearchFault.analysis
  let evaluations := found.evaluations.filterMap id
  let isEscape (m : Mutation) : Bool := e.config.alwaysEscape && decide (m.kind = .graft)
  let rest := found.candidates.filter fun m => !isEscape m
  let pool := if s.guide.isSome then 2 * e.config.offspring else e.config.offspring
  let escapes := found.candidates.filter isEscape
  let escaped ← e.children s.generation parent.diagram evaluations escapes
  let (places, samples) ←
    (sampleMutations e.weights (rest.map fun m => m.kind.name) pool s.samples).mapError
      SearchFault.sampling
  let drawn := places.filterMap fun i => rest[i]?
  let sampled ← e.children s.generation parent.diagram evaluations drawn
  let (kept, choices) ← choose s.guide e.config.offspring sampled choices
  return (escaped ++ kept, { s with choices := choices, samples := samples })

/-- The individuals whose signature has not been seen, which then has. -/
def unseen (s : Search σ τ) : List Individual → List Individual × Search σ τ
  | [] => ([], s)
  | x :: rest =>
    let signature := x.signature
    if s.seen.contains signature then unseen s rest
    else
      let (others, s) := unseen { s with seen := s.seen ++ [signature] } rest
      (x :: others, s)

/-- The new offspring of some individuals in turn. -/
def litter (e : Evolver) (examples : List Example) (a : Analyzer) :
    List Individual → Search σ τ → Except SearchFault (List Individual × Search σ τ)
  | [], s => .ok ([], s)
  | parent :: rest, s => do
    let (xs, s) ← e.offspring examples a s parent
    let (news, s) := unseen s xs
    let (others, s) ← e.litter examples a rest s
    return (news ++ others, s)

/-! ## Generations -/

/-- A generation begins: its best goes into the record, and a guide observes the population. -/
def begin (s : Search σ τ) (generation : Int) : Except SearchFault (Search σ τ) := do
  let best := s.population.head?
  let entry : ProgressEntry :=
    ⟨generation, (best.map Individual.size).getD 0, best.bind Individual.fitness⟩
  let guide ← match s.guide with
    | none => pure none
    | some g =>
      match g.observe (s.population.map fun x => (x.diagram, x.fitness)) with
      | (g, .ok _) => pure (some g)
      | (_, .error f) => throw (.guide f)
  return { s with generation := generation, progress := s.progress ++ [entry], guide := guide }

/-- A generation ends: the best of the population and its new offspring survive. -/
def generation (e : Evolver) (examples : List Example) (a : Analyzer) (s : Search σ τ) :
    Except SearchFault (Search σ τ) := do
  let (news, s) ← e.litter examples a s.population s
  let news ← news.mapM (scored (e.scoring examples))
  let survivors := select Individual.standing e.config.populationSize (s.population ++ news)
  return { s with population := survivors }

/-- Generations from a number on, as many as given; ends early with an individual that reproduces
every example. -/
def generations (e : Evolver) (examples : List Example) (a : Analyzer) :
    Nat → Int → Search σ τ → Except SearchFault (Option Individual × Search σ τ)
  | 0, _, s => .ok (none, s)
  | left + 1, number, s => do
    let s ← begin s number
    match s.population.find? Individual.perfect with
    | some x => return (some x, s)
    | none => e.generations examples a left (number + 1) (← e.generation examples a s)

/-! ## Searches -/

/-- The individuals of the seeds, which have to be well formed. -/
def seeds (e : Evolver) (ds : List Diagram) : Except SearchFault (List Individual) := do
  let ds ← ds.mapM fun d => (d.validate e.registry).mapError SearchFault.malformedSeed
  if ds = [] then throw .noSeeds
  return ds.map fun d => .ofDiagram d 0 none

/-- The search before its first generation. -/
def start (e : Evolver) (examples : List Example) (ds : List Diagram) (guide : Option Guide)
    (choices : σ) (samples : τ) : Except SearchFault (Search σ τ) := do
  let xs ← (← e.seeds ds).mapM (scored (e.scoring examples))
  let population := select Individual.standing e.config.populationSize xs
  return ⟨population, 0, population.map Individual.signature, [], guide, choices, samples⟩

/-- **A whole search**: the best individual found, and the search at its end. -/
def run (e : Evolver) (ds : List Diagram) (examples : List Example) (budget : Option Int)
    (guide : Option Guide) (choices : σ) (samples : τ) :
    Except SearchFault (Individual × Search σ τ) := do
  let budget := budget.getD e.config.maxGenerations
  let values ← (collectValues examples).mapError SearchFault.untextual
  let s ← e.start examples ds guide choices samples
  let (found, s) ← e.generations examples (e.analyzer values) budget.toNat 0 s
  match found with
  | some x => return (x, s)
  | none =>
    match s.population with
    | [] => throw .noSeeds
    | best :: _ => return (best, { s with generation := budget })

end

end Evolver

end RuleDiagram
