import RuleDiagram.Proofs.Diagram.Editing
import RuleDiagram.Proofs.Run.Produced

/-!
# Edits that keep what is produced

What comes of a snapshot at a node depends on the nodes that can be come to from there, up to their
indices. So appended nodes and the removal of a node that nothing leads to change nothing; and an
edge may be led to another target if the same comes of snapshots there.

## Main definitions

* `Diagram.Preserves`: an edited diagram produces what the unedited one does

## Main results

* `Diagram.produced_of_renaming`: indices do not matter
* `Diagram.preserves_append`, `Diagram.preserves_withEdge`, `Diagram.yield_removeNode`: the edits
-/

namespace RuleDiagram

namespace Node

variable {n n' : Node} {facts : List Fact} {P : Prospect} {s : Snapshot} {e : Edge}
  {a b : Option Int}

theorem relays_mapTargets {f : Int → Int} :
    (n.mapTargets f).relays facts P s = n.relays facts (fun t => P (t.map f)) s := by
  cases n with
  | leaf p => rw [mapTargets, relays_leaf, relays_leaf]
  | branch p m r =>
    rw [mapTargets, relays_branch, relays_branch]
    rfl

/-- With another child a branch relays no less, if no less comes of snapshots there. -/
theorem relays_withChild (h : n.withChild e b = .ok n') (ha : (e, a) ∈ n.children)
    (hab : ∀ u, P a u ⊆ P b u) : n.relays facts P s ⊆ n'.relays facts P s := by
  obtain ⟨p, m, r, rfl, hcases⟩ := withChild_eq_ok_iff.1 h
  rcases hcases with ⟨rfl, rfl⟩ | ⟨rfl, rfl⟩ <;> rw [relays_branch, relays_branch]
  · obtain rfl : a = m := by simpa [children] using ha
    refine Set.union_subset_union_left _ ?_
    rintro f ⟨u, hu, hf⟩
    exact ⟨u, hu, hab u hf⟩
  · obtain rfl : a = r := by simpa [children] using ha
    refine Set.union_subset_union_right _ ?_
    rintro f ⟨u, hu, hf⟩
    exact ⟨u, hu, hab u hf⟩

end Node

namespace Diagram

variable {d d' d'' : Diagram} {facts : List Fact} {i : Int} {s : Snapshot} {ns : List Node}
  {source a b : Option Int} {e : Edge} {place : Nat}

/-- **Indices do not matter**: nodes renamed along with all that their edges lead to produce the
same. -/
theorem produced_of_renaming {K : Int → Prop} {r : Int → Int}
    (hK : ∀ i n, K i → d.node? i = some n → ∀ t ∈ n.targets, K t)
    (hr : ∀ i j, K i → K j → r i = r j → i = j)
    (hnode : ∀ i, K i → d'.node? (r i) = (d.node? i).map (Node.mapTargets r)) (hi : K i) :
    d'.produced facts (some (r i)) s = d.produced facts (some i) s := by
  refine Set.Subset.antisymm ?_ ?_
  · -- A fact is produced at a new index when it is produced at the old one.
    have hsubset : d'.produced facts (some (r i)) s ⊆
        {f | ∃ i', K i' ∧ some (r i) = some (r i') ∧ f ∈ d.produced facts (some i') s} := by
      refine produced_subset (d := d')
        (P := fun t s => {f | ∃ i', K i' ∧ t = some (r i') ∧ f ∈ d.produced facts (some i') s})
        (K := fun j => ∃ i', K i' ∧ j = r i') ?_ ?_ ⟨i, hi, rfl⟩
      · rintro _ n' ⟨i', hi', rfl⟩ hn' t ht
        obtain ⟨n, hn, rfl⟩ := Option.map_eq_some_iff.1 ((hnode i' hi').symm.trans hn')
        obtain ⟨t', ht', rfl⟩ := Node.mem_targets_mapTargets.1 ht
        exact ⟨t', hK i' n hi' hn t' ht', rfl⟩
      · rintro _ n' ⟨i', hi', rfl⟩ hn' s f hf
        obtain ⟨n, hn, rfl⟩ := Option.map_eq_some_iff.1 ((hnode i' hi').symm.trans hn')
        refine ⟨i', hi', rfl, ?_⟩
        rw [produced_of_node hn]
        rw [Node.relays_mapTargets] at hf
        refine Node.relays_mono (fun e t ht u g hg => ?_) hf
        obtain ⟨j, hj, hjt, hg⟩ := hg
        obtain ⟨t', rfl, ht'⟩ := Option.map_eq_some_iff.1 hjt
        have htarget := hK i' n hi' hn t' (Node.mem_targets.2 ⟨e, ht⟩)
        exact hr t' j htarget hj ht' ▸ hg
    intro f hf
    obtain ⟨i', hi', hsame, hf⟩ := hsubset hf
    exact hr i i' hi hi' (Option.some_inj.1 hsame) ▸ hf
  · -- What is produced at the new indices solves the equations of the old nodes.
    refine produced_subset (P := fun t => d'.produced facts (t.map r)) hK ?_ hi
    intro i n hi hn s
    have hn' : d'.node? (r i) = some (n.mapTargets r) := by rw [hnode i hi, hn, Option.map_some]
    rw [Option.map_some, produced_of_node hn', Node.relays_mapTargets]

/-- **An edited diagram produces what the unedited one does**, at each of its indices and at its
root. -/
structure Preserves (d d' : Diagram) (facts : List Fact) : Prop where
  size_le : d.size ≤ d'.size
  produced : ∀ i, inRange d.size i → ∀ s,
    d'.produced facts (some i) s = d.produced facts (some i) s
  root : ∀ s, d'.produced facts (some d'.root) s = d.produced facts (some d.root) s

namespace Preserves

theorem refl (d : Diagram) (facts : List Fact) : d.Preserves d facts :=
  ⟨le_rfl, fun _ _ _ => rfl, fun _ => rfl⟩

theorem trans (h : d.Preserves d' facts) (h' : d'.Preserves d'' facts) :
    d.Preserves d'' facts where
  size_le := h.size_le.trans h'.size_le
  produced i hi s := by
    have hi' : inRange d'.size i := by
      have := h.size_le
      rw [inRange_iff] at hi ⊢
      omega
    rw [h'.produced i hi', h.produced i hi]
  root s := (h'.root s).trans (h.root s)

theorem yield_eq (h : d.Preserves d' facts) : d'.yield facts = d.yield facts := by
  rw [yield_eq_produced, yield_eq_produced, h.root]

end Preserves

/-- Nodes at the end change nothing. -/
theorem preserves_append (hd : d.InRange) : d.Preserves (d.append ns) facts := by
  -- The nodes that were there keep their indices: a renaming that is the identity.
  have hproduced (i : Int) (hi : inRange d.size i) (s : Snapshot) :
      (d.append ns).produced facts (some i) s = d.produced facts (some i) s := by
    refine produced_of_renaming (K := fun i => inRange d.size i) (r := id)
      (fun i n _ hn t ht => hd.follow hn ht) (fun i j _ _ h => h) (fun i hi => ?_) hi
    rw [id, node?_append_of_inRange hi]
    cases d.node? i with
    | none => rfl
    | some n => exact congrArg some Node.mapTargets_id.symm
  exact ⟨by simp, hproduced, fun s => hproduced d.root hd.root s⟩

/-- **An edge may be led to another target** where no more comes of snapshots before the edit, and
no less after it. -/
theorem preserves_withEdge (hd : d.InRange) (hedge : (source, e, a) ∈ d.edges)
    (h : d.withEdge source e b = .ok d') (hb : ∀ t, b = some t → inRange d.size t)
    (hbefore : ∀ s, d.produced facts b s ⊆ d.produced facts a s)
    (hafter : ∀ s, d'.produced facts a s ⊆ d'.produced facts b s) : d.Preserves d' facts := by
  have hd' := hd.withEdge hedge h hb
  have hsize := size_withEdge hedge h
  obtain ⟨rfl, rfl, rfl, r, rfl, rfl⟩ | ⟨place, n, n', rfl, hn, he, hn', rfl⟩ :=
    withEdge_cases hedge h
  · -- The root edge: no node is edited, and the new root produces what the old one does.
    rw [produced_withRoot] at hafter
    exact ⟨le_rfl, fun i _ s => by rw [produced_withRoot],
      fun s => by rw [produced_withRoot]; exact (hbefore s).antisymm (hafter s)⟩
  · obtain ⟨hlt, -⟩ := List.getElem?_eq_some_iff.1 hn
    have hplace : d.node? place = some n := (node?_natCast place).trans hn
    have hplace' : (d.setNode place n').node? place = some n' := node?_setNode_self hlt
    have hother {i : Int} (hi : inRange d.size i) (hne : i ≠ place) :
        (d.setNode place n').node? i = d.node? i :=
      node?_setNode_of_ne (inRange_iff.1 hi).1 hne
    -- What each diagram produces solves the equations of the other; they differ at one branch.
    have hproduced (i : Int) (hi : inRange d.size i) (s : Snapshot) :
        (d.setNode place n').produced facts (some i) s = d.produced facts (some i) s := by
      refine Set.Subset.antisymm ?_ ?_
      · refine produced_subset (K := fun i => inRange d.size i)
          (fun i m _ hm t ht => hsize ▸ hd'.follow hm ht) (fun i m hi hm s => ?_) hi
        by_cases hip : i = place
        · -- The branch with the new child relays no more than with the old one.
          subst hip
          obtain rfl := Option.some_inj.1 (hplace'.symm.trans hm)
          obtain ⟨hback, -⟩ := Node.withChild_comm hn' (Node.child_eq_ok_iff.2 he)
          rw [produced_of_node hplace]
          exact Node.relays_withChild hback ((Node.mem_children_withChild hn').2 (by simp)) hbefore
        · rw [produced_of_node ((hother hi hip).symm.trans hm)]
      · refine produced_subset (K := fun i => inRange d.size i)
          (fun i m _ hm t ht => hd.follow hm ht) (fun i m hi hm s => ?_) hi
        by_cases hip : i = place
        · -- With the old child it relayed no more than with the new one.
          subst hip
          obtain rfl := Option.some_inj.1 (hplace.symm.trans hm)
          rw [produced_of_node hplace']
          exact Node.relays_withChild hn' he hafter
        · rw [produced_of_node ((hother hi hip).trans hm)]
    exact ⟨hsize.ge, hproduced, fun s => hproduced d.root hd.root s⟩

/-- The removal of a node changes nothing that is yielded. -/
theorem yield_removeNode (hd : d.InRange) (h : d.removeNode place = .ok d') :
    d'.yield facts = d.yield facts := by
  obtain ⟨hroot, honly, rfl⟩ := removeNode_eq_ok_iff.1 h
  rw [yield_eq_produced, yield_eq_produced]
  -- The removed node is come to by its own edges only.
  refine produced_of_renaming (K := fun i => inRange d.size i ∧ i ≠ place)
    (fun i n ⟨hi, hne⟩ hn t ht => ⟨hd.follow hn ht, ?_⟩)
    (fun i j hi hj => shiftIndex_inj hi.2 hj.2) (fun i hi => node?_removed hi.1 hi.2)
    ⟨hd.root, hroot⟩
  rintro rfl
  obtain ⟨k, rfl, hk⟩ := exists_place_of_node? hi hn
  obtain ⟨e, he⟩ := Node.mem_targets.1 ht
  exact hne (Option.some_inj.1 (honly _ e ((mem_edges_of_node hk).2 he)))

end Diagram

end RuleDiagram
