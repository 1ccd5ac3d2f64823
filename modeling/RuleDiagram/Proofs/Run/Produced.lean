import RuleDiagram.Proofs.Diagram.WellFormed
import RuleDiagram.Proofs.Run.Monotone

/-!
# What comes of a snapshot

A node takes its snapshots one by one, so that all that a diagram yields comes of the empty snapshot
at the root: a snapshot at a node produces what the node emits for it and what the snapshots sent on
for it produce at the targets. Seen from its nodes, a diagram is a system of equations between such
sets, and what is produced is their least solution.

## Main definitions

* `Prospect`: sets of facts that come of snapshots at targets
* `Node.relays`: what comes of a snapshot at a node, given what comes of it at the targets
* `Diagram.Produces`, `Diagram.produced`: what comes of a snapshot in a diagram

## Main results

* `Diagram.yield_eq_produced`: what a diagram yields is produced at its root
* `Diagram.produced_of_node`, `Diagram.produced_passThrough`, `Diagram.mem_produced_branch`: the
  equations of a diagram
* `Diagram.produced_subset`: what is produced lies within every other solution
-/

namespace RuleDiagram

open ListSet

/-- What comes of snapshots at the targets of edges. -/
abbrev Prospect := Option Int → Snapshot → Set Fact

namespace Node

/-- **What comes of a snapshot at a node**, given what comes of snapshots at its targets. -/
def relays (n : Node) (facts : List Fact) (P : Prospect) (s : Snapshot) : Set Fact :=
  n.emits s ∪ {f | ∃ e t u, (e, t) ∈ n.children ∧ u ∈ n.sends facts e s ∧ f ∈ P t u}

variable {n m : Node} {facts : List Fact} {P Q : Prospect} {s t : Snapshot} {f : Fact}

theorem relays_mono (h : ∀ e a, (e, a) ∈ n.children → ∀ u, P a u ⊆ Q a u) :
    n.relays facts P s ⊆ n.relays facts Q s := by
  rintro f (hf | ⟨e, a, u, ha, hu, hf⟩)
  · exact .inl hf
  · exact .inr ⟨e, a, u, ha, hu, h e a ha u hf⟩

/-- Nodes and snapshots that are the same relay the same. -/
theorem relays_subset_of_same (hnm : Same n m) (hst : Same s t) :
    n.relays facts P s ⊆ m.relays facts P t := by
  have hchildren : n.children = m.children := by
    rcases same_iff.1 hnm with ⟨p, q, a, b, rfl, rfl, -⟩ | ⟨p, q, rfl, rfl, -⟩ <;> rfl
  rintro f (hf | ⟨e, a, u, ha, hu, hf⟩)
  · exact .inl (emits_mono hnm hst hf)
  · exact .inr ⟨e, a, u, hchildren ▸ ha, sends_mono hnm subset_rfl hst hu, hf⟩

@[simp] theorem relays_leaf {p : Pattern} : (leaf p).relays facts P s = (leaf p).emits s := by
  simp [relays, children]

theorem relays_branch {p : Pattern} {a b : Option Int} : (branch p a b).relays facts P s =
    {f | ∃ u ∈ (branch p a b).sends facts .onMatch s, f ∈ P a u} ∪
      {f | ∃ u ∈ (branch p a b).sends facts .onRefute s, f ∈ P b u} := by
  ext f
  constructor
  · rintro (hf | ⟨e, t, u, ht, hu, hf⟩)
    · exact hf.elim
    · rcases mem_children_branch.1 ht with ⟨rfl, rfl⟩ | ⟨rfl, rfl⟩
      · exact .inl ⟨u, hu, hf⟩
      · exact .inr ⟨u, hu, hf⟩
  · rintro (⟨u, hu, hf⟩ | ⟨u, hu, hf⟩)
    · exact .inr ⟨.onMatch, a, u, mem_children_branch.2 (.inl ⟨rfl, rfl⟩), hu, hf⟩
    · exact .inr ⟨.onRefute, b, u, mem_children_branch.2 (.inr ⟨rfl, rfl⟩), hu, hf⟩

end Node

namespace Diagram

/-- **A snapshot at a node gives rise to a fact**: the node emits it for the snapshot, or a snapshot
that it sends on gives rise to it at the target. -/
inductive Produces (d : Diagram) (facts : List Fact) : Int → Snapshot → Fact → Prop
  | emit {i : Int} {n : Node} {s : Snapshot} {f : Fact} (hn : d.node? i = some n)
    (hf : f ∈ n.emits s) : Produces d facts i s f
  | send {i j : Int} {n : Node} {e : Edge} {s u : Snapshot} {f : Fact} (hn : d.node? i = some n)
    (he : (e, some j) ∈ n.children) (hu : u ∈ n.sends facts e s) (h : Produces d facts j u f) :
    Produces d facts i s f

/-- The facts that a snapshot at a target gives rise to; none without a target. -/
def produced (d : Diagram) (facts : List Fact) : Prospect := fun target s =>
  {f | ∃ i, target = some i ∧ d.Produces facts i s f}

variable {d d' : Diagram} {facts : List Fact} {i j : Int} {n : Node} {s t : Snapshot} {f : Fact}
  {P : Prospect} {a b : Option Int}

@[simp] theorem produced_none : d.produced facts none s = ∅ := by
  simp [produced]

theorem mem_produced_some : f ∈ d.produced facts (some i) s ↔ d.Produces facts i s f := by
  simp [produced]

/-- **The equation of a node.** -/
theorem produced_of_node (hn : d.node? i = some n) :
    d.produced facts (some i) s = n.relays facts (d.produced facts) s := by
  ext f
  rw [mem_produced_some]
  constructor
  · intro h
    cases h with
    | emit hm hf =>
      obtain rfl := Option.some_inj.1 (hn.symm.trans hm)
      exact .inl hf
    | send hm he hu h =>
      obtain rfl := Option.some_inj.1 (hn.symm.trans hm)
      exact .inr ⟨_, _, _, he, hu, mem_produced_some.2 h⟩
  · rintro (hf | ⟨e, t, u, he, hu, j, rfl, h⟩)
    · exact .emit hn hf
    · exact .send hn he hu h

/-- **What is produced lies within every solution** of the equations, be it a solution at some
indices that no edge leads away from. -/
theorem produced_subset {K : Int → Prop}
    (hK : ∀ i n, K i → d.node? i = some n → ∀ t ∈ n.targets, K t)
    (h : ∀ i n, K i → d.node? i = some n → ∀ s, n.relays facts P s ⊆ P (some i) s) (hi : K i) :
    d.produced facts (some i) s ⊆ P (some i) s := by
  intro f hf
  rw [mem_produced_some] at hf
  -- Induction on how the fact is produced.
  induction hf with
  | emit hn hf => exact h _ _ hi hn _ (.inl hf)
  | send hn he hu _ ih =>
    exact h _ _ hi hn _ (.inr ⟨_, _, _, he, hu, ih (hK _ _ hi hn _ (Node.mem_targets.2 ⟨_, he⟩))⟩)

theorem Produces.of_nodes_eq (h : d.Produces facts i s f) (hnodes : d.nodes = d'.nodes) :
    d'.Produces facts i s f := by
  have hnode (i : Int) : d.node? i = d'.node? i := by
    rw [node?, node?, size, size, hnodes]
  induction h with
  | emit hn hf => exact .emit (hnode _ ▸ hn) hf
  | send hn he hu _ ih => exact .send (hnode _ ▸ hn) he hu ih

/-- What comes of a snapshot at a node does not depend on the root. -/
@[simp] theorem produced_withRoot : (d.withRoot j).produced facts = d.produced facts := by
  funext target s
  ext f
  exact exists_congr fun i => and_congr_right fun _ =>
    ⟨fun h => h.of_nodes_eq rfl, fun h => h.of_nodes_eq rfl⟩

/-- Snapshots that are the same produce the same. -/
theorem produced_congr (hst : Same s t) : d.produced facts a s = d.produced facts a t := by
  -- Sameness is symmetric, so one inclusion is enough.
  have key {s t : Snapshot} (hst : Same s t) : d.produced facts a s ⊆ d.produced facts a t := by
    rintro f ⟨i, rfl, h⟩
    cases h with
    | emit hn hf => exact ⟨i, rfl, .emit hn (Node.emits_mono (Same.refl _) hst hf)⟩
    | send hn he hu h =>
      exact ⟨i, rfl, .send hn he (Node.sends_mono (Same.refl _) subset_rfl hst hu) h⟩
  exact (key hst).antisymm (key hst.symm)

/-- A pass-through branch produces what both its targets do. -/
theorem produced_passThrough {p : Pattern} (hn : d.node? i = some (.branch p a b))
    (hp : p.predicate = none) :
    d.produced facts (some i) s = d.produced facts a s ∪ d.produced facts b s := by
  -- Along either edge the snapshot itself is sent, and nothing else up to sameness.
  have hsends {e : Edge} {c : Option Int} (he : e ≠ .root) :
      {f | ∃ u ∈ (Node.branch p a b).sends facts e s, f ∈ d.produced facts c u} =
        d.produced facts c s := by
    ext f
    constructor
    · rintro ⟨u, hu, hf⟩
      rwa [produced_congr ((Node.mem_sends_passThrough hp he).1 hu)]
    · exact fun hf => ⟨s, (Node.mem_sends_passThrough hp he).2 (Same.refl s), hf⟩
  rw [produced_of_node hn, Node.relays_branch, hsends (by decide), hsends (by decide)]

/-- Any other branch produces, because of the facts of its predicate, what the extended snapshots do
at one target and what the snapshot itself does at the other. -/
theorem mem_produced_branch {p : Pattern} {q : Predicate}
    (hn : d.node? i = some (.branch p a b)) (hp : p.predicate = some q) :
    f ∈ d.produced facts (some i) s ↔
      (∃ g ∈ facts, g.predicate = q ∧ ∃ u, unify p.terms g.values s = some u ∧
        f ∈ d.produced facts a u) ∨
      (∃ g ∈ facts, g.predicate = q ∧ unify p.terms g.values s = none) ∧
        f ∈ d.produced facts b s := by
  rw [produced_of_node hn, Node.relays_branch]
  simp only [Set.mem_union, Set.mem_ofPred_eq, Node.mem_sends_branch, Pattern.Delivers, hp,
    reduceCtorEq, false_and, false_or, Option.some_inj, eq_comm (a := q)]
  constructor
  · rintro (⟨u, ⟨w, ⟨g, hg, hq, hw⟩, hwu⟩, hf⟩ | ⟨u, ⟨w, ⟨rfl, hrefuted⟩, hwu⟩, hf⟩)
    · exact .inl ⟨g, hg, hq, w, hw, produced_congr hwu ▸ hf⟩
    · exact .inr ⟨hrefuted, produced_congr hwu ▸ hf⟩
  · rintro (⟨g, hg, hq, u, hu, hf⟩ | ⟨hrefuted, hf⟩)
    · exact .inl ⟨u, ⟨u, ⟨g, hg, hq, hu⟩, Same.refl u⟩, hf⟩
    · exact .inr ⟨s, ⟨s, ⟨rfl, hrefuted⟩, Same.refl s⟩, hf⟩

/-- **What a diagram yields is what the empty snapshot at its root produces.** -/
theorem yield_eq_produced : d.yield facts = d.produced facts (some d.root) .empty := by
  ext f
  rw [mem_produced_some]
  constructor
  · -- The snapshots that give rise to nothing but what the root does are a closed family.
    have hclosed : d.Closed facts fun i =>
        {s | d.produced facts (some i) s ⊆ d.produced facts (some d.root) .empty} :=
      { same := fun hst hs => (produced_congr hst).symm.subset.trans hs
        root := fun _ hf => hf
        onMatch := fun hn hs ht f hf => hs <| mem_produced_some.2 <|
          .send hn (Node.mem_children_branch.2 (.inl ⟨rfl, rfl⟩)) (mem_toSet_of_mem ht)
            (mem_produced_some.1 hf)
        onRefute := fun hn hs ht f hf => hs <| mem_produced_some.2 <|
          .send hn (Node.mem_children_branch.2 (.inr ⟨rfl, rfl⟩)) (mem_toSet_of_mem ht)
            (mem_produced_some.1 hf) }
    rintro ⟨i, n, hn, s, hs, hf⟩
    exact mem_produced_some.1 (isLeast_arrivals.2 hclosed i hs (mem_produced_some.2 (.emit hn hf)))
  · -- All snapshots on the way from the root arrive.
    have key {i : Int} {s : Snapshot} (h : d.Produces facts i s f) (hs : s ∈ d.arrivals facts i) :
        f ∈ d.yield facts := by
      induction h with
      | emit hn hf => exact ⟨_, _, hn, _, hs, hf⟩
      | send hn he hu _ ih => exact ih (mem_arrivals_of_child hn he hs hu)
    exact fun h => key h closed_arrivals.root

end Diagram

end RuleDiagram
