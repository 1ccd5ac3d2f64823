import RuleDiagram.Proofs.Diagram.Secured
import RuleDiagram.Proofs.Run.Renumbering
import RuleDiagram.Proofs.Run.Safety

/-!
# Removing a node

A node may be removed if it is not the root and no other node leads to it. It may lead to itself and
to others: no snapshot ever comes to it, so what it would send does not matter. The other nodes are
the same under lowered indices, and so are the evaluations of the diagram.

## Main results

* `Diagram.exists_removeNode_eq_error_iff`: when a node cannot be removed
* `Diagram.renumbered_removeNode`: what is left is the diagram renumbered
* `Diagram.removeNode_exact`: what is left is well formed and evaluated alike
-/

namespace RuleDiagram

namespace Diagram

variable {d d' : Diagram} {registry : Option Registry} {place : Nat}

/-! ## Nodes that cannot be removed -/

/-- The node at one place is led to by that at another. -/
def LedByAnother (d : Diagram) (place source : Nat) : Prop :=
  source ≠ place ∧ ∃ n, d.nodes[source]? = some n ∧ (place : Int) ∈ n.targets

theorem removeNode_eq_error {fault : EditFault} (h : d.removeNode place = .error fault) :
    d.root = place ∧ fault = .removesRoot place ∨
      ∃ source : Nat, d.LedByAnother place source ∧
        fault = .stillReferenced (some (place : Int)) source := by
  unfold removeNode at h
  split at h
  · next hroot => exact .inl ⟨hroot, (Except.error.inj h).symm⟩
  · next hroot =>
    split at h
    · next source e t hfind =>
      have hmem := List.mem_of_find?_eq_some hfind
      have hfound := List.find?_some hfind
      simp only [decide_eq_true_eq] at hfound
      obtain ⟨rfl, hne⟩ := hfound
      -- The root edge leads elsewhere, so the edge leaves a node.
      obtain ⟨-, -, ht⟩ | ⟨source, n, rfl, hn, he⟩ := mem_edges.1 hmem
      · exact absurd (Option.some_inj.1 ht).symm hroot
      · refine .inr ⟨source, ⟨fun hs => hne (hs ▸ rfl), n, hn, Node.mem_targets.2 ⟨e, he⟩⟩, ?_⟩
        exact (Except.error.inj h).symm
    · cases h

/-- **A node cannot be removed** if and only if it is the root or another node leads to it. -/
theorem exists_removeNode_eq_error_iff : (∃ fault, d.removeNode place = .error fault) ↔
    d.root = place ∨ ∃ source, d.LedByAnother place source := by
  constructor
  · rintro ⟨fault, h⟩
    exact (removeNode_eq_error h).imp And.left fun ⟨source, hled, _⟩ => ⟨source, hled⟩
  · intro hled
    cases h : d.removeNode place with
    | error fault => exact ⟨fault, rfl⟩
    | ok d' =>
      obtain ⟨hroot, honly, -⟩ := removeNode_eq_ok_iff.1 h
      obtain hroot' | ⟨source, hne, n, hn, ht⟩ := hled
      · exact absurd hroot' hroot
      · obtain ⟨e, he⟩ := Node.mem_targets.1 ht
        have hsource := honly _ e ((mem_edges_of_node hn).2 he)
        exact absurd (Int.ofNat_inj.1 (Option.some_inj.1 hsource)) hne

/-! ## The nodes that are left -/

/-- **What is left is the diagram renumbered**: the indices above the removed one are lowered. -/
theorem renumbered_removeNode (hd : d.InRange) (h : d.removeNode place = .ok d') :
    d.Renumbered (shiftIndex place) {i | RuleDiagram.inRange d.size i ∧ i ≠ place} d' := by
  obtain ⟨hroot, honly, rfl⟩ := removeNode_eq_ok_iff.1 h
  refine
    { injOn := fun i hi j hj hij => shiftIndex_inj hi.2 hj.2 hij
      root_mem := ⟨hd.root, hroot⟩
      root := rfl
      node := fun i hi => node?_removed hi.1 hi.2
      follow := fun i hi n hn t ht => ⟨hd.follow hn ht, ?_⟩ }
  -- Only the removed node leads to the removed node.
  rintro rfl
  obtain ⟨k, rfl, hk⟩ := exists_place_of_node? hi.1 hn
  obtain ⟨e, he⟩ := Node.mem_targets.1 ht
  exact hi.2 (Option.some_inj.1 (honly _ e ((mem_edges_of_node hk).2 he)))

/-- What is left of a well-formed diagram is well formed. -/
theorem validate_removeNode (hd : d.validate registry = .ok d) (h : d.removeNode place = .ok d') :
    d'.validate registry = .ok d' := by
  rw [validate_eq_ok_iff, fault?_eq_none_iff_valid, valid_iff_exists_secured] at hd ⊢
  obtain ⟨⟨B, hB⟩, -⟩ := hd
  exact ⟨⟨_, hB.removeNode h⟩, rfl⟩

/-- **The removal of a node** from a well-formed diagram. It fails if and only if the node is the
root or another node leads to it, and says which. Otherwise the node is dropped and the indices
above it are lowered in all edges and at the root; the result is well formed; and on all facts and
under every limit, both diagrams fail at the limit or both evaluations end, with the same outputs in
as many rounds, the one being the other with its indices lowered. -/
theorem removeNode_exact (hd : d.validate registry = .ok d) :
    ((∃ fault, d.removeNode place = .error fault) ↔
      d.root = place ∨ ∃ source, d.LedByAnother place source) ∧
    (∀ fault, d.removeNode place = .error fault → d.root = place ∧ fault = .removesRoot place ∨
      ∃ source : Nat, d.LedByAnother place source ∧
        fault = .stillReferenced (some (place : Int)) source) ∧
    ∀ d', d.removeNode place = .ok d' →
      d'.nodes = (d.nodes.eraseIdx place).map (Node.mapTargets (shiftIndex place)) ∧
      d'.root = shiftIndex place d.root ∧
      d'.validate registry = .ok d' ∧
      ∀ facts limit,
        d.evaluate facts limit = .error (.limitReached limit) ∧
          d'.evaluate facts limit = .error (.limitReached limit) ∨
        ∃ e e', d.evaluate facts limit = .ok e ∧ d'.evaluate facts limit = .ok e' ∧
          e'.outputs = e.outputs ∧
          e.Renumbered (shiftIndex place) {i | inRange d.size i ∧ i ≠ place} e' := by
  refine ⟨exists_removeNode_eq_error_iff, fun fault => removeNode_eq_error, fun d' h => ?_⟩
  have hwell := wellFormed_of_fault?_eq_none (validate_eq_ok_iff.1 hd).1
  obtain ⟨-, -, hd'⟩ := removeNode_eq_ok_iff.1 h
  refine ⟨by rw [hd'], by rw [hd'], validate_removeNode hd h, fun facts limit => ?_⟩
  have halike := (renumbered_removeNode hwell.allInRange h).evaluate facts limit
  obtain ⟨e, he⟩ | hlimit := (hwell.unhindered facts).evaluate_eq_ok_or_limitReached limit
  · obtain ⟨e', he', hrenumbered⟩ := halike.exists_ok he
    exact .inr ⟨e, e', he, he', hrenumbered.outputs_eq, hrenumbered⟩
  · exact .inl ⟨hlimit, halike.limitReached hlimit⟩

end Diagram

namespace Reachability

/-- The diagram with one more node in the middle, which nothing else leads to: it leads to itself
and to a node before it. -/
def withStray : Diagram :=
  ⟨[.branch ⟨some start, [.free 0]⟩ (some 1) none,
    .branch ⟨some edge, [.reference 0, .free 1]⟩ (some 3) none,
    .branch .passThrough (some 2) (some 1),
    .branch .passThrough (some 4) (some 5),
    .leaf ⟨some reach, [.reference 0, .reference 1]⟩,
    .branch ⟨some edge, [.reference 1, .free 1]⟩ (some 3) none], 0⟩

/-- Without the stray node the circle is explored as before, under lower indices. A node that it
leads to cannot be removed, and neither can the root. -/
theorem removeNode_withStray : withStray.validate none = .ok withStray ∧
    withStray.removeNode (2 : Nat) = .ok diagram ∧ diagram.validate none = .ok diagram ∧
    (∃ e e', withStray.evaluate circle .standard = .ok e ∧
      diagram.evaluate circle .standard = .ok e' ∧ e.incoming.indices = [0, 1, 3, 4, 5] ∧
      e'.incoming.indices = [0, 1, 2, 3, 4] ∧ e'.outputs = e.outputs ∧ e'.rounds = e.rounds) ∧
    (∃ fault, withStray.removeNode (1 : Nat) = .error fault) ∧
    ∃ fault, withStray.removeNode (0 : Nat) = .error fault := by
  have hvalid : withStray.validate none = .ok withStray := rfl
  have hremoved : withStray.removeNode (2 : Nat) = .ok diagram := rfl
  have hruns : (withStray.evaluate circle .standard).toOption.any fun e =>
      decide (e.incoming.indices = [0, 1, 3, 4, 5]) := by
    decide
  obtain ⟨e, he, hindices⟩ := Except.exists_of_any_toOption hruns
  obtain ⟨-, -, hresult⟩ := @Diagram.removeNode_exact withStray none 2 hvalid
  obtain ⟨-, -, hvalid', halike⟩ := hresult _ hremoved
  refine ⟨hvalid, hremoved, hvalid', ?_, ?_, ?_⟩
  · obtain ⟨hlimit, -⟩ | ⟨e₁, e', he₁, he', houtputs, hrenumbered⟩ := halike circle .standard
    · cases he.symm.trans hlimit
    · obtain rfl := Except.ok.inj (he.symm.trans he₁)
      have hlowered := hrenumbered.incoming.indices
      rw [of_decide_eq_true hindices] at hlowered
      exact ⟨e, e', he, he', of_decide_eq_true hindices, hlowered, houtputs, hrenumbered.rounds⟩
  · obtain ⟨hfails, -, -⟩ := @Diagram.removeNode_exact withStray none 1 hvalid
    exact hfails.2 (.inr ⟨2, by decide, _, rfl, by decide⟩)
  · obtain ⟨hfails, -, -⟩ := @Diagram.removeNode_exact withStray none 0 hvalid
    exact hfails.2 (.inl rfl)

end Reachability

end RuleDiagram
