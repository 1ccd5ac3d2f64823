import RuleDiagram.Proofs.Run.Simulation

/-!
# A node that sends the same on the whole

Two diagrams differ at one node, and for the snapshots that arrive in the first the node sends and
emits the same in both, on the whole though not snapshot by snapshot. Then nothing new arrives in
the second diagram. What has arrived may be lost: snapshots that the node sends to itself may have
been the ones that gave rise to others. If all that came to the node still comes to it, nothing is
lost.

## Main definitions

* `Diagram.QuietAt`: two diagrams differ at one node, which sends the same on the whole

## Main results

* `Diagram.QuietAt.arrivals_le`: nothing new arrives
* `Diagram.QuietAt.sameSets_iff`: when evaluations hold the same
* `Diagram.QuietAt.outputs_equal_iff`: when evaluations have the same outputs
-/

namespace RuleDiagram

open ListSet

/-- **Two diagrams differ at one node, quietly**: for the snapshots of a family the node sends along
each edge, and emits, the same in both, taken together. -/
structure Diagram.QuietAt (d d' : Diagram) (facts : List Fact) (S : Family) (k : Int) : Prop where
  root : d.root = d'.root
  node : ∀ i s, s ∈ S i → i ≠ k → ∃ n, d.node? i = some n ∧ d'.node? i = some n
  changed : ∃ n n', d.node? k = some n ∧ d'.node? k = some n' ∧ n.isBranch = n'.isBranch ∧
    n.children = n'.children
  leaving : ∀ e, d.leaving facts S e k = d'.leaving facts S e k
  emission : d.emission S k = d'.emission S k

namespace Diagram.QuietAt

variable {d d' : Diagram} {facts : List Fact} {S : Family} {k : Int} {e e' : Evaluation}

theorem symm (h : d.QuietAt d' facts S k) : d'.QuietAt d facts S k where
  root := h.root.symm
  node i s hs hi := by
    obtain ⟨n, hn, hn'⟩ := h.node i s hs hi
    exact ⟨n, hn', hn⟩
  changed := by
    obtain ⟨n, n', hn, hn', hb, hc⟩ := h.changed
    exact ⟨n', n, hn', hn, hb.symm, hc.symm⟩
  leaving e := (h.leaving e).symm
  emission := h.emission.symm

/-- All other nodes that a snapshot of the family comes to are the same. -/
theorem node_of_ne (h : d.QuietAt d' facts S k) {i : Int} {s : Snapshot} {n : Node} (hs : s ∈ S i)
    (hi : i ≠ k) (hn : d.node? i = some n) : d'.node? i = some n := by
  obtain ⟨m, hm, hm'⟩ := h.node i s hs hi
  rwa [← Option.some_inj.1 (hm.symm.trans hn)]

theorem leaving_le (h : d.QuietAt d' facts S k) (edge : Edge) :
    d.leaving facts S edge ≤ d'.leaving facts S edge := by
  intro i t ht
  by_cases hi : i = k
  · exact hi ▸ h.leaving edge ▸ hi ▸ ht
  · obtain ⟨n, hn, s, hs, ht⟩ := ht
    exact ⟨n, h.node_of_ne hs hi hn, s, hs, ht⟩

theorem leaving_eq (h : d.QuietAt d' facts S k) (edge : Edge) :
    d.leaving facts S edge = d'.leaving facts S edge :=
  le_antisymm (h.leaving_le edge) (h.symm.leaving_le edge)

theorem emission_subset (h : d.QuietAt d' facts S k) (i : Int) :
    d.emission S i ⊆ d'.emission S i := by
  intro f hf
  by_cases hi : i = k
  · exact hi ▸ h.emission ▸ hi ▸ hf
  · obtain ⟨n, hn, s, hs, hf⟩ := hf
    exact ⟨n, h.node_of_ne hs hi hn, s, hs, hf⟩

theorem emission_eq (h : d.QuietAt d' facts S k) (i : Int) : d.emission S i = d'.emission S i :=
  (h.emission_subset i).antisymm (h.symm.emission_subset i)

theorem reaches_imp (h : d.QuietAt d' facts S k) {b : Bool} {i : Int} (hi : d.Reaches S b i) :
    d'.Reaches S b i := by
  obtain ⟨⟨n, hn, hb⟩, s, hs⟩ := hi
  by_cases hi : i = k
  · obtain ⟨m, n', hm, hn', hb', -⟩ := h.changed
    obtain rfl := Option.some_inj.1 (hm.symm.trans (hi ▸ hn))
    exact ⟨⟨n', hi ▸ hn', hb' ▸ hb⟩, s, hs⟩
  · exact ⟨⟨n, h.node_of_ne hs hi hn, hb⟩, s, hs⟩

/-- An edge of one diagram that a snapshot of the family leaves a node by is one of the other. -/
theorem exists_child (h : d.QuietAt d' facts S k) {i : Int} {s : Snapshot} {n : Node}
    (hs : s ∈ S i) (hn : d.node? i = some n) :
    ∃ n', d'.node? i = some n' ∧ n.children = n'.children := by
  by_cases hi : i = k
  · obtain ⟨m, n', hm, hn', -, hc⟩ := h.changed
    obtain rfl := Option.some_inj.1 (hm.symm.trans (hi ▸ hn))
    exact ⟨n', hi ▸ hn', hc⟩
  · exact ⟨n, h.node_of_ne hs hi hn, rfl⟩

theorem arriving_le (h : d.QuietAt d' facts S k) :
    d.arriving facts S ≤ d'.arriving facts S := by
  rintro j t ⟨i, n, edge, hn, hedge, ht⟩
  obtain ⟨-, -, s, hs, -⟩ := id ht
  obtain ⟨n', hn', hc⟩ := h.exists_child hs hn
  exact ⟨i, n', edge, hn', hc ▸ hedge, h.leaving_le edge i ht⟩

theorem entering_eq (h : d.QuietAt d' facts S k) : d.entering = d'.entering := by
  unfold entering
  rw [h.root]

/-- **Nothing new arrives**: what arrives in the first diagram is closed under the second. -/
theorem arrivals_le (h : d.QuietAt d' facts (d.arrivals facts) k) :
    d'.arrivals facts ≤ d.arrivals facts := by
  refine OrderHom.lfp_le _ ?_
  rw [advance_apply, ← h.entering_eq]
  calc d.entering ⊔ d'.arriving facts (d.arrivals facts)
      ≤ d.entering ⊔ d.arriving facts (d.arrivals facts) := sup_le_sup_left h.symm.arriving_le _
    _ = d.arrivals facts := by rw [← advance_apply, arrivals, OrderHom.map_lfp]

/-- **Nothing is lost** if all that came to the node still comes to it, or if no edge leaves it. -/
theorem arrivals_eq (h : d.QuietAt d' facts (d.arrivals facts) k)
    (hk : ∀ n e j, d.node? k = some n → (e, some j) ∈ n.children →
      d.arrivals facts k ⊆ d'.arrivals facts k) :
    d.arrivals facts = d'.arrivals facts := by
  refine le_antisymm (OrderHom.lfp_le _ ?_) h.arrivals_le
  rw [advance_apply]
  refine sup_le ?_ ?_
  · rw [h.entering_eq]
    rintro i t ⟨rfl, ht⟩
    exact arrivals_same ht closed_arrivals.root
  · rintro j t ⟨i, n, edge, hn, hedge, m, hm, s, hs, ht⟩
    obtain rfl := Option.some_inj.1 (hn.symm.trans hm)
    have hs' : s ∈ d.arrivals facts i := h.arrivals_le i hs
    obtain ⟨n', hn', hc⟩ := h.exists_child hs' hn
    by_cases hi : i = k
    · -- At the changed node the snapshot is sent on for another one, which still comes to it.
      subst hi
      have hleaves : t ∈ d.leaving facts (d.arrivals facts) edge i := ⟨n, hn, s, hs', ht⟩
      rw [h.leaving] at hleaves
      obtain ⟨m', hm', u, hu, ht'⟩ := hleaves
      obtain rfl := Option.some_inj.1 (hn'.symm.trans hm')
      exact mem_arrivals_of_child hn' (hc ▸ hedge) (hk n edge j hn hedge hu) ht'
    · exact mem_arrivals_of_child (h.node_of_ne hs' hi hn) hedge hs ht

/-! ## Evaluations -/

theorem outputs_subset (h : d.QuietAt d' facts (d.arrivals facts) k) (he : d.Settled facts e)
    (he' : d'.Settled facts e') : toSet e'.outputs ⊆ toSet e.outputs := by
  intro f hf
  rw [Evaluation.outputs, NodeTable.mem_union] at hf ⊢
  obtain ⟨i, hf⟩ := hf
  rw [he'.sets_emitted] at hf
  obtain ⟨n, hn, s, hs, hf⟩ := hf
  refine ⟨i, ?_⟩
  rw [he.sets_emitted, h.emission_eq]
  exact ⟨n, hn, s, h.arrivals_le i hs, hf⟩

theorem sameSets (h : d.QuietAt d' facts (d.arrivals facts) k) (he : d.Settled facts e)
    (he' : d'.Settled facts e') (harrivals : d.arrivals facts = d'.arrivals facts) :
    e.SameSets e' :=
  he.sameSets he' rfl harrivals h.leaving_eq h.emission_eq fun _ _ =>
    ⟨h.reaches_imp, h.symm.reaches_imp⟩

/-- **Evaluations hold the same exactly when all that came to the node still comes to it.** -/
theorem sameSets_iff (h : d.QuietAt d' facts (d.arrivals facts) k) (he : d.Settled facts e)
    (he' : d'.Settled facts e') : e.SameSets e' ↔ e.incoming.sets k ⊆ e'.incoming.sets k := by
  constructor
  · exact fun hsame => (equal_iff.1 (hsame.incoming.get k)).subset
  · intro hk
    rw [he.sets_incoming, he'.sets_incoming] at hk
    exact h.sameSets he he' (h.arrivals_eq fun _ _ _ _ _ => hk)

/-- **Evaluations have the same outputs exactly when all that a leaf emitted for a snapshot that no
longer comes to it is still among the outputs.** -/
theorem outputs_equal_iff (h : d.QuietAt d' facts (d.arrivals facts) k) (he : d.Settled facts e)
    (he' : d'.Settled facts e') : ListSet.equal e.outputs e'.outputs ↔
      ∀ i p, d.node? i = some (.leaf p) → ∀ s ∈ e.incoming.sets i, s ∉ e'.incoming.sets i →
        ∀ f, instantiate p s = .ok f → f ∈ toSet e'.outputs := by
  have hemits {f : Fact} {i : Int} (hf : f ∈ d.emission (d.arrivals facts) i) :
      f ∈ toSet e.outputs := by
    rw [Evaluation.outputs, NodeTable.mem_union]
    exact ⟨i, he.sets_emitted i ▸ hf⟩
  rw [equal_iff, he.sets_incoming, he'.sets_incoming]
  constructor
  · intro houtputs i p hn s hs _ f hf
    rw [← houtputs]
    exact hemits ⟨_, hn, s, hs, f, hf, Same.refl f⟩
  · refine fun hlost => Set.Subset.antisymm (fun f hf => ?_) (h.outputs_subset he he')
    rw [Evaluation.outputs, NodeTable.mem_union] at hf
    obtain ⟨i, hf⟩ := hf
    rw [he.sets_emitted] at hf
    obtain ⟨n, hn, s, hs, hf⟩ := hf
    cases n with
    | branch p a b => exact hf.elim
    | leaf p =>
      obtain ⟨g, hg, hgf⟩ := hf
      by_cases hs' : s ∈ d'.arrivals facts i
      · rw [Evaluation.outputs, NodeTable.mem_union]
        refine ⟨i, ?_⟩
        rw [he'.sets_emitted]
        by_cases hi : i = k
        · -- A changed leaf sends nothing, so that the same arrives and is emitted on the whole.
          subst hi
          have harrivals := h.arrivals_eq fun m _ _ hm hedge => by
            obtain rfl := Option.some_inj.1 (hn.symm.trans hm)
            cases hedge
          rw [← harrivals, ← h.emission]
          exact ⟨_, hn, s, hs, g, hg, hgf⟩
        · exact ⟨_, h.node_of_ne hs hi hn, s, hs', g, hg, hgf⟩
      · -- A snapshot that was lost: its fact is among the outputs by assumption.
        exact mem_toSet_of_same hgf (hlost i p hn s hs hs' g hg)

end Diagram.QuietAt

end RuleDiagram
