import RuleDiagram.Proofs.Run.LeastFamily

/-!
# Diagrams that do the same

Two diagrams whose nodes do the same for every snapshot that arrives in the one run alike: round by
round the same snapshots arrive in both. Where nothing hinders the other, it has an evaluation as
soon as the one has, under the same limit and in as many rounds, and the two hold the same.

## Main definitions

* `Diagram.AlikeOn`: two diagrams do the same for the snapshots of a family
* `Evaluation.SameSets`, `Evaluation.Agrees`: evaluations that hold the same

## Main results

* `Diagram.Settled.sameSets`, `Diagram.Unhindered.exists_evaluate_agrees`: when two evaluations
  hold the same, and when they agree
* `Diagram.AlikeOn.arrivalsWithin_eq`: the same snapshots arrive, round by round
* `Diagram.AlikeOn.exists_evaluate_agrees`: the evaluations agree
-/

namespace RuleDiagram

open ListSet

/-- Two nodes do the same for a snapshot: they are of one kind, with edges to the same targets, and
send and emit the same. -/
structure Node.AlikeOn (n m : Node) (facts : List Fact) (s : Snapshot) : Prop where
  isBranch : n.isBranch = m.isBranch
  children : n.children = m.children
  sends : ∀ e, n.sends facts e s = m.sends facts e s
  emits : n.emits s = m.emits s

/-- **Two diagrams do the same for the snapshots of a family.** -/
structure Diagram.AlikeOn (d d' : Diagram) (facts : List Fact) (S : Family) : Prop where
  root : d.root = d'.root
  node : ∀ i s, s ∈ S i → ∃ n n', d.node? i = some n ∧ d'.node? i = some n' ∧ n.AlikeOn n' facts s

/-- Two tables hold the same: the same nodes, with the same sets. -/
structure NodeTable.Agrees {α : Type} [Canonical α] [DecidableEq α] (t u : NodeTable α) : Prop where
  indices : ∀ i, i ∈ t.indices ↔ i ∈ u.indices
  get : ∀ i, ListSet.equal (t.get i) (u.get i)

/-- Two evaluations hold the same, whatever rounds they took. -/
structure Evaluation.SameSets (e e' : Evaluation) : Prop where
  facts : ListSet.equal e.facts e'.facts
  incoming : e.incoming.Agrees e'.incoming
  matched : e.matched.Agrees e'.matched
  refuted : e.refuted.Agrees e'.refuted
  emitted : e.emitted.Agrees e'.emitted
  outputs : ListSet.equal e.outputs e'.outputs

/-- **Two evaluations agree in every field.** -/
structure Evaluation.Agrees (e e' : Evaluation) : Prop extends e.SameSets e' where
  rounds : e.rounds = e'.rounds

/-! ## Agreement of evaluations -/

theorem NodeTable.agrees_of_sets_eq {α : Type} [Canonical α] [DecidableEq α] {t u : NodeTable α}
    (hsets : t.sets = u.sets) (hindices : ∀ i, i ∈ t.indices ↔ i ∈ u.indices) : t.Agrees u :=
  ⟨hindices, fun i => equal_iff.2 (congrFun hsets i)⟩

/-- Settled evaluations hold the same where the same arrives and the same comes of it. -/
theorem Diagram.Settled.sameSets {d d' : Diagram} {facts more : List Fact} {e e' : Evaluation}
    (he : d.Settled facts e) (he' : d'.Settled more e') (hfacts : toSet facts = toSet more)
    (harrivals : d.arrivals facts = d'.arrivals more)
    (hleaving : ∀ edge, d.leaving facts (d.arrivals facts) edge =
      d'.leaving more (d.arrivals facts) edge)
    (hemission : ∀ i, d.emission (d.arrivals facts) i = d'.emission (d.arrivals facts) i)
    (hreaches : ∀ b i, d.Reaches (d.arrivals facts) b i ↔ d'.Reaches (d.arrivals facts) b i) :
    e.SameSets e' := by
  have hleft (edge : Edge) (hedge : edge ≠ .root) : (e.left edge).Agrees (e'.left edge) := by
    refine NodeTable.agrees_of_sets_eq ?_ fun i => ?_
    · rw [he.sets_left, he'.sets_left, ← harrivals, hleaving]
    · rw [he.mem_left i edge hedge, he'.mem_left i edge hedge, ← harrivals, hreaches]
  have hemitted : e.emitted.sets = e'.emitted.sets := by
    funext i
    rw [he.sets_emitted, he'.sets_emitted, ← harrivals, hemission]
  refine
    { facts := by rw [equal_iff, he.toSet_facts, he'.toSet_facts, hfacts]
      incoming := NodeTable.agrees_of_sets_eq
        (by rw [he.sets_incoming, he'.sets_incoming, harrivals])
        fun i => by rw [he.mem_incoming, he'.mem_incoming, harrivals]
      matched := hleft .onMatch (by decide)
      refuted := hleft .onRefute (by decide)
      emitted := NodeTable.agrees_of_sets_eq hemitted fun i => by
        rw [he.mem_emitted, he'.mem_emitted, ← harrivals, hreaches]
      outputs := equal_iff.2 ?_ }
  -- Outputs are what the nodes emit, whichever node it is.
  ext f
  rw [Evaluation.outputs, Evaluation.outputs, NodeTable.mem_union, NodeTable.mem_union, hemitted]

/-- **Where the same arrives round by round and the same comes of it, evaluations agree.** -/
theorem Diagram.Unhindered.exists_evaluate_agrees {d d' : Diagram} {facts more : List Fact}
    {limit : RoundLimit} {e : Evaluation} (hd' : d'.Unhindered more)
    (hfacts : toSet facts = toSet more)
    (hwithin : ∀ k, d.arrivalsWithin facts k = d'.arrivalsWithin more k)
    (hleaving : ∀ edge, d.leaving facts (d.arrivals facts) edge =
      d'.leaving more (d.arrivals facts) edge)
    (hemission : ∀ i, d.emission (d.arrivals facts) i = d'.emission (d.arrivals facts) i)
    (hreaches : ∀ b i, d.Reaches (d.arrivals facts) b i ↔ d'.Reaches (d.arrivals facts) b i)
    (he : d.evaluate facts limit = .ok e) :
    ∃ e', d'.evaluate more limit = .ok e' ∧ e.Agrees e' := by
  obtain ⟨last, -, hk, hnil, hle⟩ := exists_stage_of_evaluate_eq_ok he
  have hstable := hk.stable hnil
  have hstable' := hstable
  rw [hwithin, hwithin] at hstable'
  obtain ⟨e', he'⟩ := hd'.exists_evaluate_eq_ok hle hstable'
  obtain ⟨last', -, hk', hnil', -⟩ := exists_stage_of_evaluate_eq_ok he'
  have harrivals : d.arrivals facts = d'.arrivals more := by
    rw [arrivals_eq_of_stable hstable, arrivals_eq_of_stable hstable', hwithin]
  -- Both stop at the first round that brings nothing new, which is the same one.
  have hrounds : e.rounds = e'.rounds := by
    refine le_antisymm (not_lt.1 fun hlt => ?_) (not_lt.1 fun hlt => ?_)
    · refine hk.progress _ hlt ?_
      rw [hwithin, hwithin, hk'.stable hnil']
    · exact hk'.progress _ hlt hstable'
  have hsame := (settled_of_evaluate_eq_ok he).sameSets (settled_of_evaluate_eq_ok he') hfacts
    harrivals hleaving hemission hreaches
  exact ⟨e', he', hsame, hrounds⟩

/-! ## Diagrams that do the same -/

theorem Node.AlikeOn.symm {n m : Node} {facts : List Fact} {s : Snapshot}
    (h : n.AlikeOn m facts s) : m.AlikeOn n facts s :=
  ⟨h.isBranch.symm, h.children.symm, fun e => (h.sends e).symm, h.emits.symm⟩

namespace Diagram

variable {d d' : Diagram} {facts : List Fact} {S T : Family} {e : Evaluation} {limit : RoundLimit}

namespace AlikeOn

theorem symm (h : d.AlikeOn d' facts S) : d'.AlikeOn d facts S where
  root := h.root.symm
  node i s hs := by
    obtain ⟨n, n', hn, hn', halike⟩ := h.node i s hs
    exact ⟨n', n, hn', hn, halike.symm⟩

/-- The counterpart of a node that a snapshot of the family comes to. -/
theorem exists_node (h : d.AlikeOn d' facts S) {i : Int} {s : Snapshot} {n : Node} (hs : s ∈ S i)
    (hn : d.node? i = some n) : ∃ n', d'.node? i = some n' ∧ n.AlikeOn n' facts s := by
  obtain ⟨m, n', hm, hn', halike⟩ := h.node i s hs
  obtain rfl := Option.some_inj.1 (hm.symm.trans hn)
  exact ⟨n', hn', halike⟩

theorem leaving_le (h : d.AlikeOn d' facts S) (hT : T ≤ S) (edge : Edge) :
    d.leaving facts T edge ≤ d'.leaving facts T edge := by
  rintro i t ⟨n, hn, s, hs, ht⟩
  obtain ⟨n', hn', halike⟩ := h.exists_node (hT i hs) hn
  exact ⟨n', hn', s, hs, halike.sends edge ▸ ht⟩

theorem leaving_eq (h : d.AlikeOn d' facts S) (hT : T ≤ S) (edge : Edge) :
    d.leaving facts T edge = d'.leaving facts T edge :=
  le_antisymm (h.leaving_le hT edge) (h.symm.leaving_le hT edge)

theorem emission_subset (h : d.AlikeOn d' facts S) (hT : T ≤ S) (i : Int) :
    d.emission T i ⊆ d'.emission T i := by
  rintro f ⟨n, hn, s, hs, hf⟩
  obtain ⟨n', hn', halike⟩ := h.exists_node (hT i hs) hn
  exact ⟨n', hn', s, hs, halike.emits ▸ hf⟩

theorem emission_eq (h : d.AlikeOn d' facts S) (hT : T ≤ S) (i : Int) :
    d.emission T i = d'.emission T i :=
  (h.emission_subset hT i).antisymm (h.symm.emission_subset hT i)

theorem arriving_le (h : d.AlikeOn d' facts S) (hT : T ≤ S) :
    d.arriving facts T ≤ d'.arriving facts T := by
  rintro j t ⟨i, n, edge, hn, hedge, m, hm, s, hs, ht⟩
  obtain rfl := Option.some_inj.1 (hn.symm.trans hm)
  obtain ⟨n', hn', halike⟩ := h.exists_node (hT i hs) hn
  exact ⟨i, n', edge, hn', halike.children ▸ hedge, n', hn', s, hs, halike.sends edge ▸ ht⟩

theorem arriving_eq (h : d.AlikeOn d' facts S) (hT : T ≤ S) :
    d.arriving facts T = d'.arriving facts T :=
  le_antisymm (h.arriving_le hT) (h.symm.arriving_le hT)

theorem reaches_imp (h : d.AlikeOn d' facts S) {b : Bool} {i : Int} (hi : d.Reaches S b i) :
    d'.Reaches S b i := by
  obtain ⟨⟨n, hn, hb⟩, s, hs⟩ := hi
  obtain ⟨n', hn', halike⟩ := h.exists_node hs hn
  exact ⟨⟨n', hn', halike.isBranch ▸ hb⟩, s, hs⟩

theorem reaches_iff (h : d.AlikeOn d' facts S) {b : Bool} {i : Int} :
    d.Reaches S b i ↔ d'.Reaches S b i :=
  ⟨h.reaches_imp, h.symm.reaches_imp⟩

/-- The same snapshots arrive within every number of rounds. -/
theorem arrivalsWithin_eq (h : d.AlikeOn d' facts (d.arrivals facts)) (k : ℕ) :
    d.arrivalsWithin facts k = d'.arrivalsWithin facts k := by
  induction k with
  | zero => rfl
  | succ k ih =>
    have hentering : d.entering = d'.entering := by
      unfold entering
      rw [h.root]
    rw [arrivalsWithin_succ, arrivalsWithin_succ, ← ih, hentering,
      h.arriving_eq (arrivalsWithin_le_arrivals k)]

end AlikeOn

/-- **Diagrams that do the same for what arrives have evaluations that agree.** -/
theorem AlikeOn.exists_evaluate_agrees (h : d.AlikeOn d' facts (d.arrivals facts))
    (hd' : d'.Unhindered facts) (he : d.evaluate facts limit = .ok e) :
    ∃ e', d'.evaluate facts limit = .ok e' ∧ e.Agrees e' :=
  hd'.exists_evaluate_agrees rfl h.arrivalsWithin_eq (h.leaving_eq le_rfl) (h.emission_eq le_rfl)
    (fun _ _ => h.reaches_iff) he

end Diagram

end RuleDiagram
