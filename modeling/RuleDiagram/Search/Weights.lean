import RuleDiagram.Mutation.Basic
import RuleDiagram.Text.Numeral
import RuleDiagram.Value.Order

/-!
# Weights of mutations

How often a kind of mutation is drawn. A kind may have a weight of its own; otherwise the weights of
the groups that it belongs to are reduced to one, and if there is none a default holds. Kinds and
groups go by name, blanks at the ends aside; group names do not distinguish capital letters. Weights
are given as values; a weight that is set has to be a number, a default is kept as it is.

## Main definitions

* `Weights`, `Weights.uniform`, `Weights.standard`
* `Weights.setWeight`, `Weights.setGroup`, `Weights.setGroupWeight`: changes
* `Weights.resolve`: the weight of a kind
* `Reduction`: how several weights become one
-/

namespace RuleDiagram

/-- Why a change of weights or a look at them fails. -/
inductive WeightFault where
  | emptyKind
  | emptyGroup
  | negativeWeight
  /-- A whole number is too large for a weight. -/
  | tooLarge
  /-- A value is no number, or several values have no order. -/
  | unsuited
  /-- A text is no numeral. -/
  | notNumeral (text : String)
  | nothingToReduce
  | unknownReduction
deriving DecidableEq

/-- The fault in words. -/
def WeightFault.message : WeightFault → String
  | emptyKind => "Mutation name must be a non-empty string."
  | emptyGroup => "Group name must be a non-empty string."
  | negativeWeight => "Weights must be non-negative."
  | tooLarge => "The weight is too large."
  | unsuited => "The weight is no number."
  | notNumeral text => "could not convert string to float: " ++ literal text
  | nothingToReduce => "No group weights provided for reduction."
  | unknownReduction => "Unknown group_reduce mode. Use 'mean', 'min', 'max', or 'sum'."

/-! ## Reductions -/

/-- How several weights become one. -/
inductive Reduction where
  | mean
  | min
  | max
  | sum
deriving DecidableEq

namespace Reduction

/-- The reduction of a name. -/
def ofName? (name : String) : Option Reduction :=
  match lowerCase (trimBlanks name) with
  | "mean" => some mean
  | "min" => some min
  | "max" => some max
  | "sum" => some sum
  | _ => none

/-- A number as an amount. -/
def amount (v : Value) : Except WeightFault Amount :=
  match v.amount? with
  | some a => .ok a
  | none => .error .unsuited

/-- The first of the values that come before all others in an order. -/
def extreme (before? : Value → Value → Option Bool) (first : Value) (rest : List Value) :
    Except WeightFault Value :=
  rest.foldlM
    (fun best v =>
      match before? v best with
      | some isBefore => .ok (if isBefore then v else best)
      | none => .error .unsuited)
    first

/-- The sum of numbers, unless a whole number among them is too large. -/
def total (weights : List Value) : Except WeightFault Amount := do
  match Amount.sum? (← weights.mapM amount) with
  | some a => return a
  | none => throw .tooLarge

/-- Several weights as one. -/
def reduceFrom (r : Reduction) (first : Value) (rest : List Value) : Except WeightFault Value :=
  match r with
  | mean => do
    match (← total (first :: rest)).divided? (rest.length + 1) with
    | some x => return .float x
    | none => throw .tooLarge
  | min => extreme Value.less? first rest
  | max => extreme (fun v w => w.less? v) first rest
  | sum => do
    match ← total (first :: rest) with
    | .whole n => return .int n
    | .float x => return .float x

end Reduction

/-- Several weights as one, by the name of a reduction. -/
def reduceWeights (weights : List Value) (name : String) : Except WeightFault Value :=
  match weights with
  | [] => .error .nothingToReduce
  | first :: rest =>
    match Reduction.ofName? name with
    | none => .error .unknownReduction
    | some r => r.reduceFrom first rest

/-! ## Named entries -/

/-- A list of named entries with one of them put in, in place of an earlier one of that name. -/
def putEntry {α : Type} (entries : List (String × α)) (name : String) (x : α) : List (String × α) :=
  if (entries.map Prod.fst).contains name then
    entries.map fun (n, y) => (n, if n = name then x else y)
  else entries ++ [(name, x)]

/-- A list of named entries without the one of a name. -/
def dropEntry {α : Type} (entries : List (String × α)) (name : String) : List (String × α) :=
  entries.filter fun e => decide (e.1 ≠ name)

/-! ## Weights -/

/-- Weights of kinds of mutations and of groups of kinds. -/
structure Weights where
  /-- The weight of a kind without any, absent if it has none. -/
  fallback : Value
  kinds : List (String × Binary64)
  groups : List (String × List String)
  groupWeights : List (String × Binary64)

namespace Weights

/-- The group of the kinds with a common effect. -/
def effectGroup (name : String) (effect : MutationClass) : String × List String :=
  (name, (MutationKind.all.filter fun k => decide (k.effect = effect)).map MutationKind.name)

/-- No weights but a default, and one group for each class of mutations. -/
def uniform (fallback : Value) : Weights :=
  ⟨fallback, [],
    [effectGroup "neutral" .neutral, effectGroup "size_changing" .sizeChanging,
      effectGroup "behavior_changing" .behaviorChanging], []⟩

/-- The name of a kind without blanks at its ends. -/
def kindName (name : String) : Except WeightFault String :=
  let clean := trimBlanks name
  if clean = "" then .error .emptyKind else .ok clean

/-- The name of a group without blanks at its ends, in small letters. -/
def groupName (name : String) : Except WeightFault String :=
  let clean := lowerCase (trimBlanks name)
  if clean = "" then .error .emptyGroup else .ok clean

/-- The floating-point number that a value is as a weight; a text may be a numeral. -/
def weightOf (v : Value) : Except WeightFault Binary64 :=
  match v.amount?, v with
  | some a, _ =>
    match a.real? with
    | some x => .ok x
    | none => .error .tooLarge
  | none, .text s =>
    match realOfText? s with
    | some x => .ok x
    | none => .error (.notNumeral s)
  | none, _ => .error .unsuited

/-- Gives a kind a weight, or takes it away. -/
def setWeight (w : Weights) (kind : String) (weight : Value) : Except WeightFault Weights := do
  let name ← kindName kind
  if weight = .absent then return { w with kinds := dropEntry w.kinds name }
  match weight.less? (.int 0) with
  | none => throw .unsuited
  | some true => throw .negativeWeight
  | some false => return { w with kinds := putEntry w.kinds name (← weightOf weight) }

/-- The weight of a kind itself. -/
def weight? (w : Weights) (kind : String) : Except WeightFault (Option Binary64) := do
  return w.kinds.lookup (← kindName kind)

/-- The weights with another weight of a group. -/
def putGroupWeight (w : Weights) (group : String) (weight : Value) :
    Except WeightFault Weights := do
  return { w with groupWeights := putEntry w.groupWeights group (← weightOf weight) }

/-- Gives a group a weight, or takes it away. -/
def setGroupWeight (w : Weights) (name : String) (weight : Value) :
    Except WeightFault Weights := do
  let group ← groupName name
  if weight = .absent then return { w with groupWeights := dropEntry w.groupWeights group }
  w.putGroupWeight group weight

/-- Defines a group, and gives it a weight if there is one. A weight at fault leaves the group
defined. -/
def setGroup (w : Weights) (name : String) (kinds : List String) (weight : Value) :
    Weights × Except WeightFault Unit :=
  match (do return (← groupName name, ← kinds.mapM kindName) : Except WeightFault _) with
  | .error f => (w, .error f)
  | .ok (group, members) =>
    let w := { w with groups := putEntry w.groups group members }
    if weight = .absent then (w, .ok ())
    else
      match w.putGroupWeight group weight with
      | .ok changed => (changed, .ok ())
      | .error f => (w, .error f)

/-- The kinds that belong to a group. -/
def members (w : Weights) (name : String) : Except WeightFault (List String) := do
  return ((w.groups.lookup (← groupName name)).getD []).eraseDups

/-- The weight of a group. -/
def groupWeight? (w : Weights) (name : String) : Except WeightFault (Option Binary64) := do
  return w.groupWeights.lookup (← groupName name)

/-- The weights of the groups that a kind belongs to. -/
def weightsOfGroups (w : Weights) (name : String) : List Value :=
  w.groups.filterMap fun (group, members) =>
    if members.contains name then (w.groupWeights.lookup group).map Value.float else none

/-- **The weight of a kind**: its own, otherwise the reduced weights of its groups, otherwise the
given default or the one of the profile, absent if there is none. -/
def resolve (w : Weights) (kind : String) (default : Value) (reduction : String) :
    Except WeightFault Value := do
  let name ← kindName kind
  match w.kinds.lookup name with
  | some x => return .float x
  | none =>
    match w.weightsOfGroups name with
    | [] => return if default = .absent then w.fallback else default
    | weights => reduceWeights weights reduction

/-- The floating-point number that an integer is. -/
def float (n : Int) : Binary64 := .ofInt n

/-- The weights of a search: grafts first, then moves that may change behaviour. -/
def standard : Weights :=
  { uniform (.float (float 1)) with
    kinds := [(MutationKind.graft.name, float 8)]
    groupWeights :=
      [("neutral", float 1), ("size_changing", .ofQuotient 1 2), ("behavior_changing", float 2)] }

/-- The weight of a kind as a number, zero for one without a weight. -/
def ofKind (w : Weights) (kind : String) : Except WeightFault Binary64 := do
  let weight ← w.resolve kind .absent "mean"
  if weight = .absent then return .zero
  weightOf weight

end Weights

end RuleDiagram
