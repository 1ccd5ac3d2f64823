import RuleDiagram.Run.Evaluation

/-!
# Configurations of a search

## Main definitions

* `Settings`: numbers as given, with the presets `Settings.standard`, `Settings.fast` and
  `Settings.thorough`
* `Config`: settings that have passed the checks
* `Settings.check`
* `Settings.named`: settings by name
-/

namespace RuleDiagram

/-- The settings of a search, as given. -/
structure Settings where
  populationSize : Int := 16
  offspring : Int := 6
  maxGenerations : Int := 50
  maxRounds : Int := 512
  behaviorBudget : Int := 8
  escapeBudget : Int := 2
  maxConstants : Int := 16
  freshRegisters : Int := 1
  /-- Whether grafts are always applied, or drawn like other mutations. -/
  alwaysEscape : Bool := true
  maxWorkers : Int := 1
  logEvery : Int := 10
  seed : Option Int := none

namespace Settings

def standard : Settings := {}

def fast : Settings :=
  { populationSize := 8, offspring := 4, maxGenerations := 20, maxRounds := 128,
    behaviorBudget := 4 }

def thorough : Settings :=
  { populationSize := 48, offspring := 10, maxGenerations := 200, behaviorBudget := 16,
    escapeBudget := 4, maxConstants := 32, freshRegisters := 2 }

/-- The preset of a name. -/
def named? : String → Option Settings
  | "standard" => some standard
  | "fast" => some fast
  | "thorough" => some thorough
  | _ => none

/-- The settings by name, in order. A missing seed is the absent value. -/
def named (s : Settings) : List (String × Value) :=
  [("population_size", .int s.populationSize), ("offspring_per_individual", .int s.offspring),
    ("max_generations", .int s.maxGenerations), ("max_rounds", .int s.maxRounds),
    ("behavior_budget", .int s.behaviorBudget), ("escape_budget", .int s.escapeBudget),
    ("max_constant_candidates", .int s.maxConstants), ("fresh_registers", .int s.freshRegisters),
    ("always_escape", .bool s.alwaysEscape), ("max_workers", .int s.maxWorkers),
    ("log_every", .int s.logEvery), ("seed", (s.seed.map Value.int).getD .absent)]

end Settings

/-- Why settings are refused. -/
inductive ConfigFault where
  | populationSize
  | offspring
  | maxRounds
  | maxWorkers
deriving DecidableEq

/-- The fault in words. -/
def ConfigFault.message : ConfigFault → String
  | populationSize => "population_size must be at least 1."
  | offspring => "offspring_per_individual must be non-negative."
  | maxRounds => RoundLimit.complaint
  | maxWorkers => "max_workers must be at least 1."

/-- A configuration: settings with room for at least one individual, rounds and workers. -/
structure Config where
  populationSize : Nat
  offspring : Nat
  maxGenerations : Int
  limit : RoundLimit
  behaviorBudget : Int
  escapeBudget : Int
  maxConstants : Int
  freshRegisters : Int
  alwaysEscape : Bool
  maxWorkers : Nat
  logEvery : Int
  seed : Option Int
  populationSize_pos : 0 < populationSize
  maxWorkers_pos : 0 < maxWorkers

/-- The configuration of settings, or the first fault of them. -/
def Settings.check (s : Settings) : Except ConfigFault Config :=
  if hp : s.populationSize < 1 then .error .populationSize
  else if s.offspring < 0 then .error .offspring
  else
    match RoundLimit.ofInt? s.maxRounds with
    | none => .error .maxRounds
    | some limit =>
      if hw : s.maxWorkers < 1 then .error .maxWorkers
      else
        .ok
          { populationSize := s.populationSize.toNat
            offspring := s.offspring.toNat
            maxGenerations := s.maxGenerations
            limit := limit
            behaviorBudget := s.behaviorBudget
            escapeBudget := s.escapeBudget
            maxConstants := s.maxConstants
            freshRegisters := s.freshRegisters
            alwaysEscape := s.alwaysEscape
            maxWorkers := s.maxWorkers.toNat
            logEvery := s.logEvery
            seed := s.seed
            populationSize_pos := by omega
            maxWorkers_pos := by omega }

end RuleDiagram
