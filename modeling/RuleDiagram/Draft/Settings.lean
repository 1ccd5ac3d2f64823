import RuleDiagram.Draft.Fault
import RuleDiagram.Search.Config

/-!
# Settings from elsewhere

Settings that are given by name, of which nothing is promised: a name may be none of a setting, and
an item may be no number. They are checked as settings are, and kept as they were given.

## Main definitions

* `SettingsDraft`, `SettingsDraft.ofSettings`
* `SettingsDraft.put`: one more setting
* `SettingsDraft.check`: the checks that settings have to pass
* `SettingsDraft.config`: the configuration of settings that are whole numbers
-/

namespace RuleDiagram

/-- Settings by name, in order. -/
structure SettingsDraft where
  entries : List (String × Item)

/-- Why settings are refused. -/
inductive SettingsFault where
  | config (f : ConfigFault)
  /-- A name is none of a setting, or an item is no number. -/
  | unsuited

/-- An item counts as true: a value other than none, zero and the empty text, and what is not
empty. -/
def Item.isTrue : Item → Bool
  | value .absent => false
  | value (.text s) => decide (s ≠ "")
  | value v => decide (canonical v ≠ .int 0)
  | list items => !items.isEmpty
  | record fields => !fields.isEmpty

namespace SettingsDraft

/-- Settings with an item for each. -/
def ofSettings (s : Settings) : SettingsDraft := ⟨s.named.map fun (name, v) => (name, .value v)⟩

/-- The item of a name. -/
def get (s : SettingsDraft) (name : String) : Item := (s.entries.lookup name).getD .absent

/-- The settings with another item for a name. -/
def put (s : SettingsDraft) (name : String) (x : Item) : Except SettingsFault SettingsDraft :=
  if (s.entries.map Prod.fst).contains name then
    .ok ⟨s.entries.map fun (n, y) => (n, if n = name then x else y)⟩
  else .error .unsuited

/-- A setting is refused if it is less than its least number. -/
def atLeast (s : SettingsDraft) (name : String) (least : Int) (f : ConfigFault) :
    Except SettingsFault Unit :=
  match (s.get name).less? (.int least) with
  | none => .error .unsuited
  | some true => .error (.config f)
  | some false => .ok ()

/-- The settings themselves, unless one of them is refused. -/
def check (s : SettingsDraft) : Except SettingsFault SettingsDraft := do
  s.atLeast "population_size" 1 .populationSize
  s.atLeast "offspring_per_individual" 0 .offspring
  s.atLeast "max_rounds" 1 .maxRounds
  s.atLeast "max_workers" 1 .maxWorkers
  return s

/-- The least whole number that is not below a setting, by default that of other settings. -/
def whole (s : SettingsDraft) (name : String) (default : Int) : Int :=
  ((s.get name).amount?.map Amount.ceiling).getD default

/-- The seed, if there is one. -/
def seed (s : SettingsDraft) : Except SettingsFault (Option Int) :=
  let x := s.get "seed"
  if x.isAbsent then .ok none
  else
    match x.integer? with
    | some n => .ok (some n)
    | none => .error .unsuited

/-- The configuration of settings. Room is made up to a whole number, and where a number that is not
checked is none, the standard one takes its place. -/
def config (s : SettingsDraft) : Except SettingsFault Config := do
  discard s.check
  let standard := Settings.standard
  let settings : Settings :=
    { populationSize := s.whole "population_size" standard.populationSize
      offspring := s.whole "offspring_per_individual" standard.offspring
      maxGenerations := s.whole "max_generations" standard.maxGenerations
      maxRounds := s.whole "max_rounds" standard.maxRounds
      behaviorBudget := s.whole "behavior_budget" standard.behaviorBudget
      escapeBudget := s.whole "escape_budget" standard.escapeBudget
      maxConstants := s.whole "max_constant_candidates" standard.maxConstants
      freshRegisters := s.whole "fresh_registers" standard.freshRegisters
      alwaysEscape := (s.get "always_escape").isTrue
      maxWorkers := s.whole "max_workers" standard.maxWorkers
      logEvery := s.whole "log_every" standard.logEvery
      seed := ← s.seed }
  settings.check.mapError .config

end SettingsDraft

end RuleDiagram
