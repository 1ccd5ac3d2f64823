import RuleDiagram.Diagram.Basic
import RuleDiagram.Fact

/-!
# Problems

A problem declares input and output predicates and gives examples: input facts with the output facts
that a diagram is to produce from them.

## Main definitions

* `Example`: input facts and desired output facts, as sets
* `Problem`: declared predicates and examples
* `collectValues`: the values that occur in examples
* `Problem.blank`: a diagram to start a search from
-/

namespace RuleDiagram

/-- Input facts and the output facts desired for them. -/
structure Example where
  inputs : List Fact
  outputs : List Fact

namespace Example

/-- The example of two lists of facts, taken as sets. -/
def ofLists (inputs outputs : List Fact) : Example :=
  ⟨ListSet.ofList inputs, ListSet.ofList outputs⟩

end Example

/-- Declared predicates and examples. -/
structure Problem where
  inputPredicates : List Predicate
  outputPredicates : List Predicate
  examples : List Example

/-- The values that occur in examples: example by example, in the order of their
facts, each once. -/
def collectValues (examples : List Example) : Except Untextual (List Value) :=
  examples.foldlM
    (fun seen e => do
      let facts ← sortFacts (ListSet.union e.inputs e.outputs)
      return ListSet.union seen (facts.flatMap Fact.values))
    []

/-- Why a problem is at fault. -/
inductive ProblemFault where
  | undeclaredInput (place : Nat) (f : Fact)
  | undeclaredOutput (place : Nat) (f : Fact)
  | noOutputPredicate
  | untextual (f : Untextual)

/-- The fault in words; a fact without a written form cannot be mentioned. -/
def ProblemFault.message : ProblemFault → String
  | undeclaredInput place f => undeclared place "input" f
  | undeclaredOutput place f => undeclared place "output" f
  | noOutputPredicate => "Problem declares no output predicates."
  | untextual f => f.message
where
  /-- What is said of a fact whose predicate is not declared. -/
  undeclared (place : Nat) (side : String) (f : Fact) : String :=
    match f.written with
    | .ok text => "Example " ++ numeral place ++ " " ++ side ++ " " ++ text ++
        " uses an undeclared predicate."
    | .error fault => fault.message

namespace Problem

/-- The registry of all declared predicates. -/
def registry (p : Problem) : Except RegistryFault Registry :=
  Registry.ofList (p.inputPredicates ++ p.outputPredicates)

/-- The first fact of an example whose predicate is not declared. -/
def fault? (p : Problem) : Option ProblemFault :=
  p.examples.zipIdx.findSome? fun (e, i) =>
    ((e.inputs.find? fun f => !p.inputPredicates.contains f.predicate).map (.undeclaredInput i)).or
      ((e.outputs.find? fun f => !p.outputPredicates.contains f.predicate).map
          (.undeclaredOutput i))

/-- A diagram to start a search from: one leaf with the first output predicate, all its arguments
the first value of the examples. -/
def blank (p : Problem) : Except ProblemFault Diagram :=
  match p.outputPredicates with
  | [] => .error .noOutputPredicate
  | q :: _ => do
    let values ← (collectValues p.examples).mapError .untextual
    let filler := values.headD (.int 0)
    return ⟨[.leaf ⟨some q, List.replicate q.arity.toNat (.constant filler)⟩], 0⟩

end Problem

end RuleDiagram
