import RuleDiagram.Mutation.Apply
import RuleDiagram.Proofs.Outcome
import RuleDiagram.Proofs.Diagram.Nodes

/-!
# What mutations find and refuse

A mutation that succeeds has found what it refers to and has met none of its reasons to be rejected.

## Main definitions

* `Mutation.TermSite.In`: a term is at its place in a diagram

## Main results

* `rejectIf_eq_ok_iff`: a condition that does not lead to a rejection
* `Mutation.TermSite.find_eq_ok_iff`: the site of a term
* `Mutation.apply_eq_ok_iff`: a mutation is an edit whose result has no fault
-/

namespace RuleDiagram

variable {d d' : Diagram} {registry : Option Registry} {evaluations : List Evaluation}
  {m : Mutation}

theorem reject_ne_ok {α : Type} {r : Reason} {a : α} : reject r ≠ .ok a := by
  unfold reject
  split <;> exact fun h => by cases h

@[simp] theorem rejectIf_eq_ok_iff {c : Bool} {r : Reason} {u : Unit} :
    rejectIf c r = .ok u ↔ c = false := by
  unfold rejectIf
  split
  · next h => simp [h, reject_ne_ok]
  · next h => simp [h]

namespace Mutation

theorem findNode_eq_ok_iff {index : Option Int} {place : Nat} {n : Node} :
    findNode d index = .ok (place, n) ↔ index = some (place : Int) ∧ d.nodes[place]? = some n := by
  cases index with
  | none => simp [findNode, reject_ne_ok]
  | some i =>
    by_cases hi : 0 ≤ i
    · obtain ⟨k, rfl⟩ := Int.eq_ofNat_of_zero_le hi
      simp only [findNode, if_pos hi, Int.toNat_natCast, Option.some_inj, Int.ofNat_inj]
      cases hk : d.nodes[k]? with
      | none => simp only [reject_ne_ok, false_iff, not_and]; rintro rfl; simp [hk]
      | some n' => simp only [Except.ok.injEq, Prod.mk.injEq]; grind
    · have hne : (place : Int) ≠ i := by omega
      simp [findNode, hi, reject_ne_ok, hne.symm]

theorem findPosition_eq_ok_iff {n : Node} {position : Int} {place : Nat} {t : Term} :
    findPosition n position = .ok (place, t) ↔
      position = place ∧ n.pattern.terms[place]? = some t := by
  by_cases hi : 0 ≤ position
  · obtain ⟨k, rfl⟩ := Int.eq_ofNat_of_zero_le hi
    simp only [findPosition, if_pos hi, Int.toNat_natCast, Int.ofNat_inj]
    cases hk : n.pattern.terms[k]? with
    | none => simp only [reject_ne_ok, false_iff, not_and]; rintro rfl; simp [hk]
    | some t' => simp only [Except.ok.injEq, Prod.mk.injEq]; grind
  · have hne : position ≠ place := by omega
    simp [findPosition, hi, reject_ne_ok, hne]

/-- The term is at its place in the diagram. -/
structure TermSite.In (x : TermSite) (d : Diagram) : Prop where
  node : d.nodes[x.place]? = some x.node
  term : x.node.pattern.terms[x.position]? = some x.term

theorem TermSite.find_eq_ok_iff {x : TermSite} {index : Option Int} {position : Int} :
    TermSite.find d index position = .ok x ↔
      index = some (x.place : Int) ∧ position = x.position ∧ x.In d := by
  simp only [find, Except.bind_eq_ok_iff, Prod.exists, findNode_eq_ok_iff, findPosition_eq_ok_iff,
    Except.pure_eq_ok_iff]
  constructor
  · rintro ⟨place, n, ⟨hindex, hn⟩, i, t, ⟨hi, ht⟩, rfl⟩
    exact ⟨hindex, hi, hn, ht⟩
  · rintro ⟨hindex, hi, hn, ht⟩
    exact ⟨x.place, x.node, ⟨hindex, hn⟩, x.position, x.term, ⟨hi, ht⟩, rfl⟩

theorem TermSite.constant_eq_ok_iff {x : TermSite} {v : Value} :
    x.constant = .ok v ↔ x.term = .constant v := by
  unfold constant
  split <;> simp_all [reject_ne_ok]

theorem TermSite.reference_eq_ok_iff {x : TermSite} {r : Int} :
    x.reference = .ok r ↔ x.term = .reference r := by
  unfold reference
  split <;> simp_all [reject_ne_ok]

theorem TermSite.free_eq_ok_iff {x : TermSite} {r : Int} : x.free = .ok r ↔ x.term = .free r := by
  unfold free
  split <;> simp_all [reject_ne_ok]

/-- A mutation is an edit whose result has no fault, and that is judged by evaluations if it is
neutral. -/
theorem apply_eq_ok_iff : m.apply registry d evaluations = .ok d' ↔
    (m.effect = .neutral → evaluations ≠ []) ∧ m.edit d evaluations = .ok d' ∧
      d'.fault? registry = none := by
  simp only [apply, Except.bind_eq_ok_iff, rejectIf_eq_ok_iff]
  constructor
  · rintro ⟨-, hfacts, result, hedit, h⟩
    split at h
    · exact absurd h reject_ne_ok
    · next hfault =>
      obtain rfl := Except.pure_eq_ok_iff.1 h
      refine ⟨fun hm hnil => ?_, hedit, hfault⟩
      simp [hm, hnil] at hfacts
  · rintro ⟨hfacts, hedit, hfault⟩
    refine ⟨(), ?_, d', hedit, by rw [hfault]; rfl⟩
    simpa using hfacts

end Mutation

end RuleDiagram
