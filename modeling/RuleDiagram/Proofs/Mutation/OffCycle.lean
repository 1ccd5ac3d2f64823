import Mathlib.Logic.Relation
import RuleDiagram.Proofs.Mutation.Quiet

/-!
# Judging a node by what leaves it, off cycles

A change that is judged by what leaves the node may lose snapshots, but only where the node keeps
itself going. If no path of edges leads from the node back to it, all that has come to it still
comes to it: every snapshot there was sent on by nodes upstream of it, and the changed node is not
among them. Downstream the same arrives as before, since the node sends the same on the whole,
though it may send it for other snapshots and in other rounds. The diagram may have cycles
elsewhere, upstream and downstream of the node too.

## Main definitions

* `Diagram.Leads`: one edge leads from an index to another
* `Handover.onward`: a node that hands over to a leaf

## Main results

* `Diagram.QuietAt.arrivals_upstream`: upstream of a node off cycles nothing is lost
* `Mutation.sameSets_off_cycle`: off cycles an accepted change keeps all that evaluations hold
-/

namespace RuleDiagram

open ListSet

variable {d d' : Diagram} {registry : Option Registry} {evaluations : List Evaluation}
  {m : Mutation} {facts : List Fact} {limit limit' : RoundLimit} {e e' : Evaluation} {k : Int}

/-- One edge of the node of the first index leads to the second. -/
def Diagram.Leads (d : Diagram) (i j : Int) : Prop :=
  ∃ n e, d.node? i = some n ∧ (e, some j) ∈ n.children

namespace Diagram.QuietAt

/-- **Upstream of a node off cycles nothing is lost**: a node with a path to the changed one is not
the changed one, and does what it did. -/
theorem arrivals_upstream (h : d.QuietAt d' facts (d.arrivals facts) k)
    (hk : ¬ Relation.TransGen d.Leads k k) {i : Int} (hi : Relation.ReflTransGen d.Leads i k) :
    d.arrivals facts i ⊆ d'.arrivals facts i := by
  -- Induction on the arrivals: the family of those snapshots that are not lost upstream.
  let kept : Family := fun i =>
    {s | s ∈ d.arrivals facts i ∧
      (Relation.ReflTransGen d.Leads i k → s ∈ d'.arrivals facts i)}
  suffices hkept : d.arrivals facts ≤ kept from fun s hs => (hkept i hs).2 hi
  refine OrderHom.lfp_le _ ?_
  rw [advance_apply]
  refine sup_le ?_ ?_
  · rintro i t ⟨rfl, ht⟩
    refine ⟨arrivals_same ht closed_arrivals.root, fun _ => ?_⟩
    rw [h.root]
    exact arrivals_same ht closed_arrivals.root
  · rintro j t ⟨i, n, edge, hn, hedge, m, hm, s, ⟨hs, hs'⟩, ht⟩
    obtain rfl := Option.some_inj.1 (hn.symm.trans hm)
    refine ⟨mem_arrivals_of_child hn hedge hs ht, fun hj => ?_⟩
    have hleads : d.Leads i j := ⟨n, edge, hn, hedge⟩
    have hi : i ≠ k := by
      rintro rfl
      exact hk (.head' hleads hj)
    exact mem_arrivals_of_child (h.node_of_ne hs hi hn) hedge (hs' (.head hleads hj)) ht

/-- Where no path leads back to the changed node, evaluations hold the same. -/
theorem sameSets_of_acyclic (h : d.QuietAt d' facts (d.arrivals facts) k)
    (hk : ¬ Relation.TransGen d.Leads k k) (he : d.Settled facts e) (he' : d'.Settled facts e') :
    e.SameSets e' :=
  h.sameSets he he' (h.arrivals_eq fun _ _ _ _ _ => h.arrivals_upstream hk .refl)

end Diagram.QuietAt

namespace Mutation

/-- **Off cycles it is enough to judge by what leaves the node.** Where no path of one or more edges
leads from the node back to it, evaluations of the changed diagram hold the same as those that the
change was judged by: at each node what arrives, is sent on and is emitted, and the outputs. The
rounds may differ. -/
theorem sameSets_off_cycle {i r : Int} {v : Value} (hd : d.validate registry = .ok d)
    (hk : ¬ Relation.TransGen d.Leads k k)
    (hm : m = .replaceConstant (some k) i v ∨ m = .replaceFreeRegister (some k) i r)
    (happly : m.apply registry d evaluations = .ok d') (he : e ∈ evaluations)
    (heval : d.evaluate facts limit = .ok e) (heval' : d'.evaluate facts limit' = .ok e') :
    e.SameSets e' := by
  have hwell := Diagram.wellFormed_of_fault?_eq_none (Diagram.validate_eq_ok_iff.1 hd).1
  obtain ⟨-, hedit, -⟩ := apply_eq_ok_iff.1 happly
  obtain ⟨x, t, hx, rfl, rfl, hsame⟩ := exists_quiet_of_edit hm hedit
  have hsettled := Diagram.settled_of_evaluate_eq_ok heval
  have hquiet := quietAt_put hwell hx hsettled (hsame e he)
  exact hquiet.sameSets_of_acyclic hk hsettled (Diagram.settled_of_evaluate_eq_ok heval')

end Mutation

/-! ## A node that hands over -/

namespace Handover

/-- The second node hands the values of steps marked with a text over to a leaf. -/
def onward (mark : String) : Diagram :=
  ⟨[.branch ⟨some init, [.free 0]⟩ (some 1) none,
    .branch ⟨some step, [.constant (.text mark), .reference 0, .free 0]⟩ (some 2) none,
    .leaf ⟨some out, [.reference 0]⟩], 0⟩

/-- Two starts, with a step marked `a` from the one and a step marked `b` from the other, both to
the same value. -/
def crossing : List Fact :=
  [origin, ⟨init, [.text "y"], rfl⟩, stepTo "a" "x" "z", stepTo "b" "y" "z"]

theorem not_transGen_onward {mark : String} : ¬ Relation.TransGen (onward mark).Leads 1 1 := by
  -- The only edge leads on to the leaf, and none leads on from there.
  have hto (j : Int) (hj : Relation.TransGen (onward mark).Leads 1 j) : j = 2 := by
    induction hj with
    | @single j h =>
      obtain ⟨n, e, hn, he⟩ := h
      obtain rfl := Option.some_inj.1 hn
      have he' : e = .onMatch ∧ j = 2 := by simpa [Node.children] using he
      exact he'.2
    | tail _ h ih =>
      subst ih
      obtain ⟨n, e, hn, he⟩ := h
      obtain rfl := Option.some_inj.1 hn
      cases he
  intro h
  exact absurd (hto 1 h) (by decide)

/-- The other mark is sent on for the other start, and all evaluations hold stays as it was. -/
theorem sameSets_crossing : ∃ e e', (onward "a").evaluate crossing .standard = .ok e ∧
    swap.apply none (onward "a") [e] = .ok (onward "b") ∧
    (onward "b").evaluate crossing .standard = .ok e' ∧ e.SameSets e' := by
  have hvalid : (onward "a").validate none = .ok (onward "a") := rfl
  have hruns : ((onward "a").evaluate crossing .standard).toOption.any fun e =>
      ((onward "b").evaluate crossing .standard).toOption.any fun _ =>
        (swap.apply none (onward "a") [e]).toOption.any fun d' => decide (d' = onward "b") := by
    decide
  obtain ⟨e, he, hruns⟩ := Except.exists_of_any_toOption hruns
  obtain ⟨e', he', hruns⟩ := Except.exists_of_any_toOption hruns
  obtain ⟨d', hd', hswap⟩ := Except.exists_of_any_toOption hruns
  obtain rfl : d' = onward "b" := of_decide_eq_true hswap
  exact ⟨e, e', he, hd', he', Mutation.sameSets_off_cycle (r := 0) hvalid not_transGen_onward
    (.inl rfl) hd' List.mem_cons_self he he'⟩

end Handover

end RuleDiagram
