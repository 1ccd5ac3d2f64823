import RuleDiagram.Proofs.Reachability
import RuleDiagram.Proofs.Run.Stages

/-!
# Evaluations find the least closed family

An evaluation that succeeds has found all snapshots that ever arrive, although each of its rounds
looked at nothing but news: the sets that have come to the nodes are the least family closed under
propagation, and what has left the branches and the leaves is what comes of that family.

## Main definitions

* `Diagram.Settled`: an evaluation that holds the arrivals and what comes of them
* `Evaluation.Exact`: an evaluation as the least closed family describes it

## Main results

* `Diagram.settled_of_evaluate_eq_ok`: an evaluation that succeeds is settled
* `Diagram.exact_of_evaluate_eq_ok`: an evaluation that succeeds is exact
-/

namespace RuleDiagram

open ListSet

/-- An evaluation that holds all that ever arrives at the nodes, and what comes of it. -/
structure Diagram.Settled (d : Diagram) (facts : List Fact) (e : Evaluation) : Prop where
  facts_eq : e.facts = ofList facts
  sets_incoming : e.incoming.sets = d.arrivals facts
  sets_left : ∀ edge, (e.left edge).sets = d.leaving facts (d.arrivals facts) edge
  sets_emitted : ∀ i, e.emitted.sets i = d.emission (d.arrivals facts) i
  mem_incoming : ∀ i, i ∈ e.incoming.indices ↔ (d.arrivals facts i).Nonempty
  mem_left : ∀ i edge, edge ≠ .root →
    (i ∈ (e.left edge).indices ↔ d.Reaches (d.arrivals facts) true i)
  mem_emitted : ∀ i, i ∈ e.emitted.indices ↔ d.Reaches (d.arrivals facts) false i
  exists_node : ∀ i, (d.arrivals facts i).Nonempty → ∃ n, d.node? i = some n
  instantiates : ∀ i p, d.node? i = some (.leaf p) → ∀ s ∈ d.arrivals facts i,
    ∃ f, instantiate p s = .ok f

/-- **An evaluation as the least closed family describes it.** The sets that have come to the nodes
are that family. A reached branch has sent, through each edge, what it delivers for the snapshots
that have come to it; a reached leaf has emitted what its template gives for them, and it gives a
fact for each. The outputs are all that has been emitted, and nodes that were not reached are in
none of the tables. -/
structure Evaluation.Exact (d : Diagram) (facts : List Fact) (e : Evaluation) : Prop where
  isLeast : IsLeast {S : Family | d.Closed facts S} e.incoming.sets
  onMatch : ∀ i p m f, i ∈ e.incoming.indices → d.node? i = some (.branch p m f) →
    toSet (e.outgoing i).onMatch =
      {t | ∃ s ∈ e.incoming.sets i, t ∈ toSet (propagate p facts [s]).onMatch}
  onRefute : ∀ i p m f, i ∈ e.incoming.indices → d.node? i = some (.branch p m f) →
    toSet (e.outgoing i).onRefute =
      {t | ∃ s ∈ e.incoming.sets i, t ∈ toSet (propagate p facts [s]).onRefute}
  instantiates : ∀ i p, i ∈ e.incoming.indices → d.node? i = some (.leaf p) →
    ∀ s ∈ e.incoming.sets i, ∃ f, instantiate p s = .ok f
  emittedBy : ∀ i p, i ∈ e.incoming.indices → d.node? i = some (.leaf p) →
    toSet (e.emittedBy i) = {f | ∃ s ∈ e.incoming.sets i, ∃ g, instantiate p s = .ok g ∧ Same g f}
  outputs : toSet e.outputs = ⋃ i ∈ e.emitted.indices, toSet (e.emittedBy i)
  mem_incoming : ∀ i, i ∈ e.incoming.indices ↔ (e.incoming.sets i).Nonempty
  exists_node : ∀ i ∈ e.incoming.indices, ∃ n, d.node? i = some n
  mem_matched : ∀ i, i ∈ e.matched.indices ↔
    i ∈ e.incoming.indices ∧ ∃ p m f, d.node? i = some (.branch p m f)
  mem_refuted : ∀ i, i ∈ e.refuted.indices ↔
    i ∈ e.incoming.indices ∧ ∃ p m f, d.node? i = some (.branch p m f)
  mem_emitted : ∀ i, i ∈ e.emitted.indices ↔
    i ∈ e.incoming.indices ∧ ∃ p, d.node? i = some (.leaf p)

namespace Diagram

variable {d : Diagram} {facts : List Fact} {limit : RoundLimit} {e : Evaluation} {S : Family}
  {i : Int} {p : Pattern} {m f : Option Int}

theorem settled_of_evaluate_eq_ok (h : d.evaluate facts limit = .ok e) : d.Settled facts e := by
  obtain ⟨last, -, hafter, hnil, -⟩ := exists_stage_of_evaluate_eq_ok h
  -- The loop stops on an empty frontier, and then one more round adds nothing.
  have hstable := hafter.stable hnil
  have harrivals := arrivals_eq_of_stable hstable
  have hincoming : e.incoming.sets = d.arrivals facts := by
    rw [hafter.sets_incoming, hstable, harrivals]
  refine
    { facts_eq := hafter.facts_eq
      sets_incoming := hincoming
      sets_left := harrivals ▸ hafter.sets_left
      sets_emitted := harrivals ▸ hafter.sets_emitted
      mem_incoming := fun i => ?_
      mem_left := harrivals ▸ hafter.mem_left
      mem_emitted := harrivals ▸ hafter.mem_emitted
      exists_node := harrivals ▸ hafter.exists_node
      instantiates := harrivals ▸ hafter.instantiates }
  rw [← hincoming]
  exact ⟨hafter.nonempty_incoming i, fun ⟨s, hs⟩ => NodeTable.mem_indices_of_mem_sets hs⟩

/-! ## What comes of a family, node by node -/

theorem leaving_branch (hn : d.node? i = some (.branch p m f)) (edge : Edge) :
    d.leaving facts S edge i = {t | ∃ s ∈ S i, t ∈ toSet ((propagate p facts [s]).along edge)} :=
  leaving_of_node hn

theorem leaving_leaf (hn : d.node? i = some (.leaf p)) (edge : Edge) :
    d.leaving facts S edge i = ∅ := by
  rw [leaving_of_node hn]
  simp [Node.sends]

theorem emission_branch (hn : d.node? i = some (.branch p m f)) : d.emission S i = ∅ := by
  rw [emission_of_node hn]
  simp [Node.emits]

theorem emission_leaf (hn : d.node? i = some (.leaf p)) :
    d.emission S i = {f | ∃ s ∈ S i, ∃ g, instantiate p s = .ok g ∧ Same g f} :=
  emission_of_node hn

theorem reaches_true_iff :
    d.Reaches S true i ↔ (S i).Nonempty ∧ ∃ p m f, d.node? i = some (.branch p m f) := by
  constructor
  · rintro ⟨⟨n, hn, hb⟩, hS⟩
    cases n with
    | leaf p => cases hb
    | branch p m f => exact ⟨hS, p, m, f, hn⟩
  · rintro ⟨hS, p, m, f, hn⟩
    exact ⟨⟨_, hn, rfl⟩, hS⟩

theorem reaches_false_iff :
    d.Reaches S false i ↔ (S i).Nonempty ∧ ∃ p, d.node? i = some (.leaf p) := by
  constructor
  · rintro ⟨⟨n, hn, hb⟩, hS⟩
    cases n with
    | leaf p => exact ⟨hS, p, hn⟩
    | branch p m f => cases hb
  · rintro ⟨hS, p, hn⟩
    exact ⟨⟨_, hn, rfl⟩, hS⟩

theorem Settled.toSet_facts (h : d.Settled facts e) : toSet e.facts = toSet facts := by
  rw [h.facts_eq, toSet_ofList]

theorem Settled.toSet_outgoing (h : d.Settled facts e) (hn : d.node? i = some (.branch p m f))
    (edge : Edge) : (e.left edge).sets i =
      {t | ∃ s ∈ e.incoming.sets i, t ∈ toSet ((propagate p facts [s]).along edge)} := by
  rw [h.sets_left, h.sets_incoming, leaving_branch hn]

/-- **An evaluation that succeeds is exact**, whatever the diagram, its cycles included. -/
theorem exact_of_evaluate_eq_ok (h : d.evaluate facts limit = .ok e) : e.Exact d facts := by
  have hsettled := settled_of_evaluate_eq_ok h
  have hreached (i : Int) : i ∈ e.incoming.indices ↔ (d.arrivals facts i).Nonempty :=
    hsettled.mem_incoming i
  have hleaf (i : Int) : i ∈ e.emitted.indices ↔
      i ∈ e.incoming.indices ∧ ∃ p, d.node? i = some (.leaf p) := by
    rw [hsettled.mem_emitted, reaches_false_iff, hreached]
  refine
    { isLeast := hsettled.sets_incoming ▸ isLeast_arrivals
      onMatch := fun i p m f _ hn => hsettled.toSet_outgoing hn .onMatch
      onRefute := fun i p m f _ hn => hsettled.toSet_outgoing hn .onRefute
      instantiates := fun i p _ hn => hsettled.sets_incoming ▸ hsettled.instantiates i p hn
      emittedBy := fun i p _ hn => ?_
      outputs := ?_
      mem_incoming := fun i => hsettled.sets_incoming ▸ hreached i
      exists_node := fun i hi => hsettled.exists_node i ((hreached i).1 hi)
      mem_matched := fun i => ?_
      mem_refuted := fun i => ?_
      mem_emitted := hleaf }
  · rw [hsettled.sets_incoming, ← emission_leaf hn]
    exact hsettled.sets_emitted i
  · -- The outputs are the union over all nodes, and only listed ones have emitted anything.
    ext f
    rw [Evaluation.outputs, NodeTable.mem_union, Set.mem_iUnion₂]
    constructor
    · rintro ⟨i, hf⟩
      exact ⟨i, NodeTable.mem_indices_of_mem_sets hf, hf⟩
    · rintro ⟨i, -, hf⟩
      exact ⟨i, hf⟩
  · rw [hreached, ← reaches_true_iff]
    exact hsettled.mem_left i .onMatch (by decide)
  · rw [hreached, ← reaches_true_iff]
    exact hsettled.mem_left i .onRefute (by decide)

end Diagram

namespace Reachability

/-- In the circle all three nodes are found, and the evaluation is exact. -/
theorem exact_circle : ∃ e, diagram.evaluate circle .standard = .ok e ∧
    e.outputs = [⟨reach, [.text "a", .text "b"], rfl⟩, ⟨reach, [.text "a", .text "c"], rfl⟩,
      ⟨reach, [.text "a", .text "a"], rfl⟩] ∧
    e.Exact diagram circle := by
  have houtputs : (diagram.evaluate circle .standard).toOption.any fun e => decide (e.outputs =
      [⟨reach, [.text "a", .text "b"], rfl⟩, ⟨reach, [.text "a", .text "c"], rfl⟩,
        ⟨reach, [.text "a", .text "a"], rfl⟩]) := by
    decide
  obtain ⟨e, he, hout⟩ := Except.exists_of_any_toOption houtputs
  exact ⟨e, he, of_decide_eq_true hout, Diagram.exact_of_evaluate_eq_ok he⟩

end Reachability

end RuleDiagram
