import RuleDiagram.Proofs.Run.Arrivals
import RuleDiagram.Proofs.Run.NodeTable

/-!
# What nodes and rounds do

A round takes the news of the round before and nothing else. What its nodes have done is said in
terms of families: what the new snapshots send has been added to what was sent, what they emit to
what was emitted, and nothing else has changed.

## Main definitions

* `Round.Takes`: what a round has done once its nodes have taken a family of snapshots

## Main results

* `Round.takes_visit`: what one node does
* `Evaluation.takes_round`: what a round does
* `Evaluation.exists_round`: when a round succeeds
-/

namespace RuleDiagram

open ListSet

variable {d : Diagram} {facts : List Fact} {i j : Int}

/-- What has left the branches along an edge. -/
def Evaluation.left (ev : Evaluation) : Edge → NodeTable Snapshot
  | .root => .empty
  | .onMatch => ev.matched
  | .onRefute => ev.refuted

/-- Some snapshot of the family reaches the index, which names a branch or, with `false`, a leaf. -/
def Diagram.Reaches (d : Diagram) (S : Family) (branch : Bool) (j : Int) : Prop :=
  (∃ n, d.node? j = some n ∧ n.isBranch = branch) ∧ (S j).Nonempty

theorem Diagram.reaches_sup {S T : Family} {b : Bool} :
    d.Reaches (S ⊔ T) b j ↔ d.Reaches S b j ∨ d.Reaches T b j := by
  rw [Reaches, Reaches, Reaches, ← and_or_left, ← Set.union_nonempty]
  rfl

/-- **What a round has done** once its nodes have taken a family of snapshots: what the snapshots
send and emit has been added, each of them was emitted where it came to a leaf, and all else is as
it was. -/
structure Round.Takes (d : Diagram) (S : Family) (r r' : Round) : Prop where
  facts : r'.evaluation.facts = r.evaluation.facts
  incoming : r'.evaluation.incoming = r.evaluation.incoming
  rounds : r'.evaluation.rounds = r.evaluation.rounds
  left : ∀ e, (r'.evaluation.left e).sets =
    (r.evaluation.left e).sets ⊔ d.leaving r.evaluation.facts S e
  emitted : ∀ j, r'.evaluation.emitted.sets j = r.evaluation.emitted.sets j ∪ d.emission S j
  sent : r'.sent.sets = r.sent.sets ⊔ d.arriving r.evaluation.facts S
  mem_left : ∀ j e, e ≠ .root →
    (j ∈ (r'.evaluation.left e).indices ↔
      j ∈ (r.evaluation.left e).indices ∨ d.Reaches S true j)
  mem_emitted : ∀ j, j ∈ r'.evaluation.emitted.indices ↔
    j ∈ r.evaluation.emitted.indices ∨ d.Reaches S false j
  exists_node : ∀ j, (S j).Nonempty → ∃ n, d.node? j = some n
  instantiates : ∀ j p, d.node? j = some (.leaf p) → ∀ s ∈ S j, ∃ f, instantiate p s = .ok f

namespace Round.Takes

variable {S T : Family} {r r' r'' : Round}

theorem refl (r : Round) : Takes d ⊥ r r where
  facts := rfl
  incoming := rfl
  rounds := rfl
  left e := by rw [Diagram.leaving_bot, sup_bot_eq]
  emitted j := by rw [Diagram.emission_bot, Set.union_empty]
  sent := by rw [Diagram.arriving_bot, sup_bot_eq]
  mem_left j e _ := ⟨.inl, fun h => h.elim id fun ⟨_, _, hs⟩ => hs.elim⟩
  mem_emitted j := ⟨.inl, fun h => h.elim id fun ⟨_, _, hs⟩ => hs.elim⟩
  exists_node _ h := h.elim fun _ hs => hs.elim
  instantiates _ _ _ _ hs := hs.elim

theorem trans (h : Takes d S r r') (h' : Takes d T r' r'') : Takes d (S ⊔ T) r r'' where
  facts := h'.facts.trans h.facts
  incoming := h'.incoming.trans h.incoming
  rounds := h'.rounds.trans h.rounds
  left e := by rw [h'.left, h.left, h.facts, Diagram.leaving_sup, sup_assoc]
  emitted j := by rw [h'.emitted, h.emitted, Diagram.emission_sup, Set.union_assoc]
  sent := by rw [h'.sent, h.sent, h.facts, Diagram.arriving_sup, sup_assoc]
  mem_left j e he := by rw [h'.mem_left j e he, h.mem_left j e he, Diagram.reaches_sup, or_assoc]
  mem_emitted j := by rw [h'.mem_emitted, h.mem_emitted, Diagram.reaches_sup, or_assoc]
  exists_node j hj := (Set.union_nonempty.1 hj).elim (h.exists_node j) (h'.exists_node j)
  instantiates j p hn s hs := hs.elim (h.instantiates j p hn s) (h'.instantiates j p hn s)

end Round.Takes

section Single

variable {S : Family} {n : Node} {fresh : List Snapshot} {e : Edge} {t : Snapshot}

/-! ### One node takes what is new to it -/

theorem Diagram.leaving_single (hn : d.node? i = some n) :
    d.leaving facts (NodeTable.single i fresh).sets e j =
      {t | j = i ∧ ∃ s ∈ toSet fresh, t ∈ n.sends facts e s} := by
  ext t
  constructor
  · rintro ⟨m, hm, s, hi, ht⟩
    obtain ⟨rfl, hs⟩ := NodeTable.mem_sets_single.1 hi
    obtain rfl : n = m := Option.some_inj.1 (hn.symm.trans hm)
    exact ⟨rfl, s, hs, ht⟩
  · rintro ⟨rfl, s, hs, ht⟩
    exact ⟨n, hn, s, NodeTable.mem_sets_single.2 ⟨rfl, hs⟩, ht⟩

theorem Diagram.emission_single (hn : d.node? i = some n) :
    d.emission (NodeTable.single i fresh).sets j =
      {f | j = i ∧ ∃ s ∈ toSet fresh, f ∈ n.emits s} := by
  ext f
  constructor
  · rintro ⟨m, hm, s, hi, hf⟩
    obtain ⟨rfl, hs⟩ := NodeTable.mem_sets_single.1 hi
    obtain rfl : n = m := Option.some_inj.1 (hn.symm.trans hm)
    exact ⟨rfl, s, hs, hf⟩
  · rintro ⟨rfl, s, hs, hf⟩
    exact ⟨n, hn, s, NodeTable.mem_sets_single.2 ⟨rfl, hs⟩, hf⟩

theorem Diagram.mem_arriving_single (hn : d.node? i = some n) :
    t ∈ d.arriving facts (NodeTable.single i fresh).sets j ↔
      ∃ e, (e, some j) ∈ n.children ∧ ∃ s ∈ toSet fresh, t ∈ n.sends facts e s := by
  constructor
  · rintro ⟨i', m, e, hm, he, ht⟩
    rw [Diagram.leaving_single hn] at ht
    obtain ⟨rfl, s, hs, ht⟩ := ht
    obtain rfl : n = m := Option.some_inj.1 (hn.symm.trans hm)
    exact ⟨e, he, s, hs, ht⟩
  · rintro ⟨e, he, s, hs, ht⟩
    exact ⟨i, n, e, hn, he, Diagram.leaving_single hn ▸ ⟨rfl, s, hs, ht⟩⟩

theorem Diagram.reaches_single (hn : d.node? i = some n) (hfresh : fresh ≠ []) {b : Bool} :
    d.Reaches (NodeTable.single i fresh).sets b j ↔ n.isBranch = b ∧ j = i := by
  constructor
  · rintro ⟨⟨m, hm, hb⟩, s, hs⟩
    obtain ⟨rfl, -⟩ := NodeTable.mem_sets_single.1 hs
    obtain rfl : n = m := Option.some_inj.1 (hn.symm.trans hm)
    exact ⟨hb, rfl⟩
  · rintro ⟨hb, rfl⟩
    obtain ⟨s, hs⟩ := toSet_nonempty.2 hfresh
    exact ⟨⟨n, hn, hb⟩, s, NodeTable.mem_sets_single.2 ⟨rfl, hs⟩⟩

/-- What a template emits for several snapshots is what it emits for each of them. -/
theorem mem_toSet_of_instantiates {p : Pattern} {xs : List Snapshot} {fs : List Fact} {f : Fact}
    (h : List.Forall₂ (fun s f => instantiate p s = .ok f) xs fs) :
    f ∈ toSet fs ↔ ∃ s ∈ toSet xs, f ∈ (Node.leaf p).emits s := by
  constructor
  · intro hf
    obtain ⟨g, hg, hgf⟩ := mem_toSet.1 hf
    obtain ⟨s, hs, hsg⟩ := List.exists_left_of_forall₂ h hg
    exact ⟨s, mem_toSet_of_mem hs, g, hsg, hgf⟩
  · rintro ⟨s, hs, hf⟩
    obtain ⟨s', hs', hss'⟩ := mem_toSet.1 hs
    obtain ⟨g, hg, hgf⟩ := Node.emits_mono (Same.refl _) hss'.symm hf
    obtain ⟨g', hg', hsg'⟩ := List.exists_right_of_forall₂ h hs'
    obtain rfl : g = g' := Except.ok.inj (hg.symm.trans hsg')
    exact mem_toSet.2 ⟨g, hg', hgf⟩

theorem exists_instantiate_of_same {p : Pattern} {s t : Snapshot} (hst : Same s t)
    (h : ∃ f, instantiate p s = .ok f) : ∃ f, instantiate p t = .ok f := by
  obtain ⟨f, hf⟩ := h
  obtain ⟨g, hg, -⟩ := instantiate_congr (Same.refl p) hst hf
  exact ⟨g, hg⟩

theorem Diagram.exists_node_single (hn : d.node? i = some n)
    (hj : ((NodeTable.single i fresh).sets j).Nonempty) : ∃ n, d.node? j = some n := by
  obtain ⟨s, hs⟩ := hj
  obtain ⟨rfl, -⟩ := NodeTable.mem_sets_single.1 hs
  exact ⟨n, hn⟩

theorem Diagram.leaving_single_branch {p : Pattern} {m f : Option Int}
    (hn : d.node? i = some (.branch p m f)) :
    d.leaving facts (NodeTable.single i fresh).sets e j =
      {t | j = i ∧ t ∈ toSet ((propagate p facts fresh).along e)} := by
  rw [leaving_single hn]
  simp only [Node.mem_toSet_along_propagate (a := m) (b := f)]

end Single

namespace Round

variable {r r' : Round} {fresh : List Snapshot} {p : Pattern}

theorem takes_visit_leaf (hn : d.node? i = some (.leaf p)) (hfresh : fresh ≠ [])
    (h : r.visit d i fresh = .ok r') : Takes d (NodeTable.single i fresh).sets r r' := by
  simp only [visit, hn, Except.bind_eq_ok_iff, Except.mapError_eq_ok_iff, List.mapM_eq_ok_iff,
    Except.pure_eq_ok_iff] at h
  obtain ⟨fs, hfs, rfl⟩ := h
  -- Nothing leaves a leaf, and nothing arrives because of it.
  have hleaving (e : Edge) :
      d.leaving r.evaluation.facts (NodeTable.single i fresh).sets e = ⊥ := by
    funext j
    rw [Diagram.leaving_single hn]
    exact Set.eq_empty_iff_forall_notMem.2 fun t ⟨_, _, _, ht⟩ => ht
  have harriving : d.arriving r.evaluation.facts (NodeTable.single i fresh).sets = ⊥ := by
    funext j
    refine Set.eq_empty_iff_forall_notMem.2 fun t ht => ?_
    obtain ⟨e, he, -⟩ := (Diagram.mem_arriving_single hn).1 ht
    cases he
  refine ⟨rfl, rfl, rfl, fun e => ?_, fun j => ?_, ?_, fun j e he => ?_, fun j => ?_,
    fun j => Diagram.exists_node_single hn, ?_⟩
  · rw [hleaving, sup_bot_eq]
    cases e <;> rfl
  · rw [NodeTable.sets_add, Diagram.emission_single hn]
    simp only [mem_toSet_of_instantiates hfs]
  · rw [harriving, sup_bot_eq]
  · rw [Diagram.reaches_single hn hfresh]
    cases e <;> simp [Evaluation.left, Node.isBranch]
  · rw [NodeTable.mem_indices_add, Diagram.reaches_single hn hfresh]
    simp [Node.isBranch, or_comm]
  · -- Each snapshot is the same as a listed one, for which there is a fact.
    rintro j q hq s hi
    obtain ⟨rfl, hs⟩ := NodeTable.mem_sets_single.1 hi
    obtain ⟨s', hs', hss⟩ := mem_toSet.1 hs
    obtain rfl : p = q := by simpa [hn] using hq
    obtain ⟨f, -, hf⟩ := List.exists_right_of_forall₂ hfs hs'
    exact exists_instantiate_of_same hss ⟨f, hf⟩

theorem takes_visit_branch {m f : Option Int} (hn : d.node? i = some (.branch p m f))
    (hfresh : fresh ≠ []) (h : r.visit d i fresh = .ok r') :
    Takes d (NodeTable.single i fresh).sets r r' := by
  simp only [visit, hn, Except.ok.injEq] at h
  subst h
  refine ⟨rfl, rfl, rfl, fun e => ?_, fun j => ?_, ?_, fun j e he => ?_, fun j => ?_,
    fun j => Diagram.exists_node_single hn, ?_⟩
  · -- What leaves each edge is added to what has left it; nothing leaves through the root edge.
    funext j
    rw [Pi.sup_apply, Diagram.leaving_single_branch hn]
    cases e with
    | root => simp [Evaluation.left, Delivery.along]
    | onMatch => exact NodeTable.sets_add
    | onRefute => exact NodeTable.sets_add
  · rw [Diagram.emission_single hn]
    simp [Node.emits]
  · -- The two sends make up what arrives because of the branch.
    funext j
    ext t
    show _ ↔ t ∈ r.sent.sets j ∪ d.arriving r.evaluation.facts (NodeTable.single i fresh).sets j
    rw [NodeTable.sets_send, NodeTable.sets_send, Set.mem_union, Set.mem_union, Set.mem_union,
      Diagram.mem_arriving_single hn, or_assoc]
    simp only [← Node.mem_toSet_along_propagate, Node.children]
    simp [Delivery.along, eq_comm, or_and_right, exists_or]
  · rw [Diagram.reaches_single hn hfresh]
    cases e <;> simp [Evaluation.left, Node.isBranch, or_comm] at he ⊢
  · rw [Diagram.reaches_single hn hfresh]
    simp [Node.isBranch]
  · rintro j q hq s hs
    obtain ⟨rfl, -⟩ := NodeTable.mem_sets_single.1 hs
    simp [hn] at hq

/-- **What one node does in a round**: it takes the snapshots that are new to it. -/
theorem takes_visit (h : r.visit d i fresh = .ok r') (hfresh : fresh ≠ []) :
    Takes d (NodeTable.single i fresh).sets r r' := by
  cases hn : d.node? i with
  | none => simp [visit, hn] at h
  | some n =>
    cases n with
    | leaf p => exact takes_visit_leaf hn hfresh h
    | branch p m f => exact takes_visit_branch hn hfresh h

theorem takes_foldlM {es : List (Int × List Snapshot)} (hes : ∀ x ∈ es, x.2 ≠ [])
    (h : es.foldlM (fun r (i, fresh) => r.visit d i fresh) r = .ok r') :
    Takes d (fun j => {t | ∃ xs, (j, xs) ∈ es ∧ t ∈ toSet xs}) r r' := by
  -- Induction on the entries: the first node takes its own, the others take theirs after it.
  induction es generalizing r with
  | nil =>
    obtain rfl : r = r' := Except.pure_eq_ok_iff.1 h
    convert Takes.refl r using 1
    funext j
    simp
  | cons x es ih =>
    obtain ⟨i, fresh⟩ := x
    rw [List.foldlM_cons, Except.bind_eq_ok_iff] at h
    obtain ⟨r₁, hvisit, hrest⟩ := h
    have hfirst := takes_visit hvisit (hes _ List.mem_cons_self)
    have hothers := ih (fun x hx => hes x (List.mem_cons_of_mem _ hx)) hrest
    convert hfirst.trans hothers using 1
    funext j
    ext t
    simp [or_and_right, exists_or]

end Round

/-- **What a round does**: the nodes take the snapshots that are new to them. -/
theorem Evaluation.takes_round {ev : Evaluation} {news : NodeTable Snapshot} {r : Round}
    (hnews : ∀ x ∈ news.entries, x.2 ≠ []) (h : ev.round d news = .ok r) :
    Round.Takes d news.sets ⟨ev, .empty⟩ r := by
  have htakes := Round.takes_foldlM hnews h
  convert htakes using 1
  funext j
  ext t
  exact NodeTable.mem_sets

/-! ## Rounds that succeed -/

theorem Round.exists_visit {n : Node} {fresh : List Snapshot} (r : Round)
    (hn : d.node? i = some n)
    (hleaf : ∀ p, n = .leaf p → ∀ s ∈ fresh, ∃ f, instantiate p s = .ok f) :
    ∃ r', r.visit d i fresh = .ok r' := by
  cases n with
  | branch p m f => exact ⟨_, by rw [visit, hn]⟩
  | leaf p =>
    obtain ⟨fs, hfs⟩ := List.exists_mapM_eq_ok (hleaf p rfl)
    rw [visit, hn]
    exact ⟨_, Except.bind_eq_ok_iff.2 ⟨fs, Except.mapError_eq_ok_iff.2 hfs, rfl⟩⟩

/-- A round succeeds where its news are at nodes, and at leaves that give a fact for each. -/
theorem Evaluation.exists_round {news : NodeTable Snapshot} (ev : Evaluation)
    (h : ∀ x ∈ news.entries, ∃ n, d.node? x.1 = some n ∧
      ∀ p, n = .leaf p → ∀ s ∈ x.2, ∃ f, instantiate p s = .ok f) :
    ∃ r, ev.round d news = .ok r := by
  have key (es : List (Int × List Snapshot)) (hes : ∀ x ∈ es, x ∈ news.entries) (r : Round) :
      ∃ r', es.foldlM (fun r (i, fresh) => r.visit d i fresh) r = .ok r' := by
    induction es generalizing r with
    | nil => exact ⟨r, rfl⟩
    | cons x es ih =>
      obtain ⟨n, hn, hleaf⟩ := h x (hes x List.mem_cons_self)
      obtain ⟨r₁, hvisit⟩ := r.exists_visit hn hleaf
      obtain ⟨r₂, hrest⟩ := ih (fun y hy => hes y (List.mem_cons_of_mem x hy)) r₁
      refine ⟨r₂, ?_⟩
      rw [List.foldlM_cons, Except.bind_eq_ok_iff]
      exact ⟨r₁, hvisit, hrest⟩
  exact key news.entries (fun _ hx => hx) _

end RuleDiagram
