import RuleDiagram.Proofs.Run.LeastFamily

/-!
# More facts give more

A snapshot leaves a branch because of one fact, on a refutation as well as on a match: that a fact
refutes a pattern does not depend on the other facts. So further facts only add to what arrives, to
what leaves the branches and to what the leaves emit, however many rounds the evaluations take.

## Main definitions

* `Diagram.yield`: all that a diagram emits in the long run
* `Evaluation.Within`: an evaluation whose sets lie within those of another one

## Main results

* `Diagram.arrivals_le_of_facts`, `Diagram.yield_mono`: more facts only add
* `Diagram.within_of_subset`: so they do to all sets of an evaluation
-/

namespace RuleDiagram

open ListSet

namespace Diagram

/-- **What a diagram yields**: the facts that its nodes emit for all that ever arrives. -/
def yield (d : Diagram) (facts : List Fact) : Set Fact :=
  {f | ∃ i, f ∈ d.emission (d.arrivals facts) i}

variable {d : Diagram} {facts more : List Fact} {e : Evaluation} {S T : Family}

theorem emission_mono (h : S ≤ T) (i : Int) : d.emission S i ⊆ d.emission T i := by
  rintro f ⟨n, hn, s, hs, hf⟩
  exact ⟨n, hn, s, h i hs, hf⟩

theorem leaving_le_of_facts (h : toSet facts ⊆ toSet more) (edge : Edge) :
    d.leaving facts S edge ≤ d.leaving more S edge := by
  rintro i t ⟨n, hn, s, hs, ht⟩
  exact ⟨n, hn, s, hs, Node.sends_mono (Same.refl n) h (Same.refl s) ht⟩

/-- A family closed under propagation with more facts is closed with fewer. -/
theorem Closed.of_facts (h : toSet facts ⊆ toSet more) (hS : d.Closed more S) :
    d.Closed facts S where
  same := hS.same
  root := hS.root
  onMatch {i p m f s t} hn hs ht := by
    obtain ⟨u, hu, htu⟩ := mem_toSet.1 (Node.sends_mono (n := .branch p (some m) f)
      (e := .onMatch) (Same.refl _) h (Same.refl s) (mem_toSet_of_mem ht))
    exact hS.same htu (hS.onMatch hn hs hu)
  onRefute {i p m f s t} hn hs ht := by
    obtain ⟨u, hu, htu⟩ := mem_toSet.1 (Node.sends_mono (n := .branch p m (some f))
      (e := .onRefute) (Same.refl _) h (Same.refl s) (mem_toSet_of_mem ht))
    exact hS.same htu (hS.onRefute hn hs hu)

/-- **More facts only add to what arrives.** -/
theorem arrivals_le_of_facts (h : toSet facts ⊆ toSet more) :
    d.arrivals facts ≤ d.arrivals more :=
  isLeast_arrivals.2 (closed_arrivals.of_facts h)

/-- More facts only add to what a diagram yields. -/
theorem yield_mono (h : toSet facts ⊆ toSet more) : d.yield facts ⊆ d.yield more := by
  rintro f ⟨i, hf⟩
  exact ⟨i, emission_mono (arrivals_le_of_facts h) i hf⟩

/-- The outputs of an evaluation are what the diagram yields. -/
theorem Settled.toSet_outputs (h : d.Settled facts e) : toSet e.outputs = d.yield facts := by
  ext f
  rw [Evaluation.outputs, NodeTable.mem_union]
  exact exists_congr fun i => by rw [h.sets_emitted]

end Diagram

/-- **An evaluation lies within another one**: node by node, all that has come to it, left it or
been emitted by it is also in the other one, and so are the outputs. -/
structure Evaluation.Within (e e' : Evaluation) : Prop where
  incoming : ∀ i, ListSet.subset (e.snapshots i) (e'.snapshots i)
  onMatch : ∀ i, ListSet.subset (e.outgoing i).onMatch (e'.outgoing i).onMatch
  onRefute : ∀ i, ListSet.subset (e.outgoing i).onRefute (e'.outgoing i).onRefute
  emitted : ∀ i, ListSet.subset (e.emittedBy i) (e'.emittedBy i)
  outputs : ListSet.subset e.outputs e'.outputs

namespace Diagram

variable {d : Diagram} {facts more : List Fact} {limit limit' : RoundLimit} {e e' : Evaluation}

/-- **Evaluation is monotone**: an evaluation on fewer facts lies within one on more of them. -/
theorem within_of_subset (he : d.evaluate facts limit = .ok e)
    (he' : d.evaluate more limit' = .ok e') (h : ListSet.subset facts more) : e.Within e' := by
  rw [subset_iff] at h
  have hsettled := settled_of_evaluate_eq_ok he
  have hsettled' := settled_of_evaluate_eq_ok he'
  have harrivals : d.arrivals facts ≤ d.arrivals more := arrivals_le_of_facts h
  have hleft (edge : Edge) : (e.left edge).sets ≤ (e'.left edge).sets := by
    rw [hsettled.sets_left, hsettled'.sets_left]
    exact (leaving_mono harrivals edge).trans (leaving_le_of_facts h edge)
  refine
    { incoming := fun i => subset_iff.2 ?_
      onMatch := fun i => subset_iff.2 (hleft .onMatch i)
      onRefute := fun i => subset_iff.2 (hleft .onRefute i)
      emitted := fun i => subset_iff.2 ?_
      outputs := subset_iff.2 ?_ }
  · have hle := harrivals i
    rwa [← hsettled.sets_incoming, ← hsettled'.sets_incoming] at hle
  · have hle := emission_mono (d := d) harrivals i
    rwa [← hsettled.sets_emitted, ← hsettled'.sets_emitted] at hle
  · rw [hsettled.toSet_outputs, hsettled'.toSet_outputs]
    exact yield_mono h

end Diagram

namespace Reachability

/-- Closing the circle adds a node that is reached, and takes none away. -/
theorem within_circle : ∃ e e', diagram.evaluate (circle.take 3) .standard = .ok e ∧
    diagram.evaluate circle .standard = .ok e' ∧ ListSet.subset (circle.take 3) circle ∧
    e.outputs.length = 2 ∧ e'.outputs.length = 3 ∧ e.Within e' := by
  have hsubset : ListSet.subset (circle.take 3) circle := by decide
  have houtputs : (diagram.evaluate (circle.take 3) .standard).toOption.any fun e =>
      (diagram.evaluate circle .standard).toOption.any fun e' =>
        decide (e.outputs.length = 2 ∧ e'.outputs.length = 3) := by
    decide
  obtain ⟨e, he, houtputs⟩ := Except.exists_of_any_toOption houtputs
  obtain ⟨e', he', houtputs⟩ := Except.exists_of_any_toOption houtputs
  obtain ⟨hfewer, hmore⟩ := of_decide_eq_true houtputs
  exact ⟨e, e', he, he', hsubset, hfewer, hmore, Diagram.within_of_subset he he' hsubset⟩

end Reachability

end RuleDiagram
