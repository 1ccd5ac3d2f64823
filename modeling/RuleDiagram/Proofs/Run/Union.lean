import RuleDiagram.Proofs.Diagram.Valid
import RuleDiagram.Proofs.Run.Produced

/-!
# A pass-through root is a union

A pass-through branch sends the empty snapshot to both of its targets and writes no register. So a
diagram with such a root may be read as two diagrams on the same nodes, one entered at each target:
each way in one of them is the rest of a way from the pass-through root, and what the diagram yields
is what the two yield together. The two share their nodes, and may lead back to the old root; what
comes of a snapshot does not depend on where it came from.

## Main results

* `Diagram.Valid.withRoot`: a diagram entered at a target of its pass-through root is valid
* `Diagram.yield_passThrough`: what is yielded is the union of what the two yield
* `Diagram.outputs_union_of_passThrough`: so are the outputs of evaluations
-/

namespace RuleDiagram

open ListSet

variable {d : Diagram} {registry : Option Registry} {facts : List Fact} {p : Pattern} {m : Node}
  {e : Edge} {a b : Option Int} {i r target : Int} {way : List (Int × Edge)}

namespace Diagram

/-! ## Ways from a target of the root -/

/-- A way from a target of the root is the rest of a way from the root. -/
theorem Way.of_withRoot (hroot : d.node? d.root = some m) (hedge : (e, some target) ∈ m.children)
    (hway : (d.withRoot target).Way way i) : d.Way ((d.root, e) :: way) i := by
  -- Induction on the way, which grows at its end.
  induction hway with
  | root => exact Way.root.step hroot hedge
  | step _ hn ht ih =>
    rw [← List.cons_append]
    exact ih.step hn ht

/-- What is written after a pass-through root is written on the rest of the way. -/
theorem WrittenOn.of_passThrough (hroot : d.node? d.root = some (.branch p a b))
    (hterms : p.terms = []) (h : d.WrittenOn ((d.root, e) :: way) r) :
    (d.withRoot target).WrittenOn way r := by
  obtain ⟨i, q, m, f, hi, hn, hr⟩ := h
  rcases List.mem_cons.1 hi with hfirst | hi
  · -- The root itself has no terms.
    obtain ⟨rfl, -⟩ := Prod.mk.inj hfirst
    obtain ⟨rfl, -, -⟩ := Node.branch.inj (Option.some_inj.1 (hn.symm.trans hroot))
    rw [hterms] at hr
    cases hr
  · exact ⟨i, q, m, f, hi, hn, hr⟩

/-- **A diagram entered at a target of its pass-through root is valid** if the diagram is. -/
theorem Valid.withRoot (hd : d.Valid registry) (hroot : d.node? d.root = some (.branch p a b))
    (hp : p.predicate = none) (hedge : (e, some target) ∈ (Node.branch p a b).children) :
    (d.withRoot target).Valid registry where
  nonempty := hd.nonempty
  root := hd.targets _ (mem_nodes_of_node? hroot) _ (Node.mem_targets.2 ⟨e, hedge⟩)
  targets := hd.targets
  nodes := hd.nodes
  references way i n hway hn := by
    have hterms : p.terms = [] := by
      have hfits := (hd.nodes _ (mem_nodes_of_node? hroot)).fits
      simpa [Node.pattern, Pattern.Fits, hp] using hfits
    have hreads := hd.references _ i n (hway.of_withRoot hroot hedge) hn
    apply hreads.mono
    intro r hr
    exact hr.of_passThrough hroot hterms

/-! ## Outputs -/

/-- What a diagram with a pass-through root yields is what comes of the empty snapshot at either
target. -/
theorem yield_passThrough (hroot : d.node? d.root = some (.branch p a b))
    (hp : p.predicate = none) :
    d.yield facts = d.produced facts a .empty ∪ d.produced facts b .empty := by
  rw [yield_eq_produced, produced_passThrough hroot hp]

/-- **A pass-through root is a union.** A valid diagram whose root is a pass-through branch is valid
when it is entered at a target of the root, and its outputs are those of the diagrams entered at the
two targets together, on all facts and under all limits within which the evaluations end. -/
theorem outputs_union_of_passThrough {a b : Int} (hd : d.validate registry = .ok d)
    (hroot : d.node? d.root = some (.branch p (some a) (some b))) (hp : p.isPassThrough) :
    (d.withRoot a).validate registry = .ok (d.withRoot a) ∧
      (d.withRoot b).validate registry = .ok (d.withRoot b) ∧
      ∀ (facts : List Fact) (limit limitA limitB : RoundLimit) (e eA eB : Evaluation),
        d.evaluate facts limit = .ok e → (d.withRoot a).evaluate facts limitA = .ok eA →
        (d.withRoot b).evaluate facts limitB = .ok eB →
        ListSet.equal e.outputs (ListSet.union eA.outputs eB.outputs) := by
  have hvalid : d.Valid registry := fault?_eq_none_iff_valid.1 (validate_eq_ok_iff.1 hd).1
  have hpredicate : p.predicate = none := by simpa [Pattern.isPassThrough] using hp
  have hentered {e : Edge} {t : Int}
      (hedge : (e, some t) ∈ (Node.branch p (some a) (some b)).children) :
      (d.withRoot t).validate registry = .ok (d.withRoot t) := by
    have hvalid' := hvalid.withRoot hroot hpredicate hedge
    exact validate_eq_ok_iff.2 ⟨fault?_eq_none_iff_valid.2 hvalid', rfl⟩
  refine ⟨hentered (e := .onMatch) (by simp [Node.children]),
    hentered (e := .onRefute) (by simp [Node.children]), ?_⟩
  intro facts limit limitA limitB e eA eB he heA heB
  have hyield (t : Int) : (d.withRoot t).yield facts = d.produced facts (some t) .empty := by
    rw [yield_eq_produced, produced_withRoot]
    rfl
  rw [equal_iff, toSet_union, (settled_of_evaluate_eq_ok he).toSet_outputs,
    (settled_of_evaluate_eq_ok heA).toSet_outputs, (settled_of_evaluate_eq_ok heB).toSet_outputs,
    hyield a, hyield b]
  exact yield_passThrough hroot hpredicate

end Diagram

namespace TwoSources

def left : Predicate := ⟨"left", 1⟩
def right : Predicate := ⟨"right", 1⟩
def found : Predicate := ⟨"found", 1⟩

/-- What is found on the left or on the right. Both sides share the leaf, and the right one leads
back to the root. -/
def diagram : Diagram :=
  ⟨[.branch .passThrough (some 1) (some 2),
    .branch ⟨some left, [.free 0]⟩ (some 4) none,
    .branch ⟨some right, [.free 0]⟩ (some 3) none,
    .branch .passThrough (some 4) (some 0),
    .leaf ⟨some found, [.reference 0]⟩], 0⟩

/-- One finding on either side. -/
def findings : List Fact := [⟨left, [.text "a"], by decide⟩, ⟨right, [.text "b"], by decide⟩]

/-- Entered on the left the diagram finds one thing, and on the right both. -/
theorem outputs_union_diagram : ∃ e eA eB, diagram.evaluate findings .standard = .ok e ∧
    (diagram.withRoot 1).evaluate findings .standard = .ok eA ∧
    (diagram.withRoot 2).evaluate findings .standard = .ok eB ∧
    eA.outputs.length = 1 ∧ eB.outputs.length = 2 ∧
    ListSet.equal e.outputs (ListSet.union eA.outputs eB.outputs) := by
  have hvalid : diagram.validate none = .ok diagram := rfl
  have hruns : (diagram.evaluate findings .standard).toOption.any fun _ =>
      ((diagram.withRoot 1).evaluate findings .standard).toOption.any fun eA =>
      ((diagram.withRoot 2).evaluate findings .standard).toOption.any fun eB =>
        decide (eA.outputs.length = 1 ∧ eB.outputs.length = 2) := by
    decide
  obtain ⟨e, he, hruns⟩ := Except.exists_of_any_toOption hruns
  obtain ⟨eA, heA, hruns⟩ := Except.exists_of_any_toOption hruns
  obtain ⟨eB, heB, hruns⟩ := Except.exists_of_any_toOption hruns
  obtain ⟨hleft, hright⟩ := of_decide_eq_true hruns
  obtain ⟨-, -, hunion⟩ := Diagram.outputs_union_of_passThrough hvalid rfl rfl
  exact ⟨e, eA, eB, he, heA, heB, hleft, hright,
    hunion findings .standard .standard .standard e eA eB he heA heB⟩

end TwoSources

end RuleDiagram
