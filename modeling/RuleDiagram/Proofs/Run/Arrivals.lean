import Mathlib
import RuleDiagram.Proofs.Run.Propagation

/-!
# The snapshots that arrive at the nodes of a diagram

A family gives every index a set of snapshots. When the nodes of a diagram take the snapshots of a
family, other snapshots leave them along their edges and arrive at other nodes. The snapshots that
arrive in the long run are the least family that holds the empty snapshot at the root and is closed
under taking and sending on; it is approached by taking everything anew, time after time.

## Main definitions

* `Family`: sets of snapshots, one for every index
* `Diagram.leaving`, `Diagram.emission`, `Diagram.arriving`: what comes of a family
* `Diagram.Closed`: families that are closed under propagation
* `Diagram.arrivals`, `Diagram.arrivalsWithin`: the least such family, and its approximations

## Main results

* `Diagram.isLeast_arrivals`: the arrivals are the least closed family
* `Diagram.arrivals_eq_of_stable`: an approximation that stays as it is has reached the arrivals
-/

namespace RuleDiagram

open ListSet

/-- A set of snapshots for every index. -/
abbrev Family := Int → Set Snapshot

namespace Diagram

variable (d : Diagram) (facts : List Fact)

/-- What leaves the nodes along an edge for the snapshots of a family. -/
def leaving (S : Family) (e : Edge) : Family := fun i =>
  {t | ∃ n, d.node? i = some n ∧ ∃ s ∈ S i, t ∈ n.sends facts e s}

/-- What the nodes emit for the snapshots of a family. -/
def emission (S : Family) (i : Int) : Set Fact :=
  {f | ∃ n, d.node? i = some n ∧ ∃ s ∈ S i, f ∈ n.emits s}

/-- What arrives at the nodes for the snapshots of a family. -/
def arriving (S : Family) : Family := fun j =>
  {t | ∃ i n e, d.node? i = some n ∧ (e, some j) ∈ n.children ∧ t ∈ d.leaving facts S e i}

/-- The empty snapshot, which enters at the root. -/
def entering : Family := fun i => {t | i = d.root ∧ Same .empty t}

variable {d facts} {S T : Family} {e : Edge} {i j : Int} {s t : Snapshot}

/-- What leaves a node is what it sends for its snapshots. -/
theorem leaving_of_node {n : Node} (hn : d.node? i = some n) :
    d.leaving facts S e i = {t | ∃ s ∈ S i, t ∈ n.sends facts e s} := by
  ext t
  constructor
  · rintro ⟨m, hm, s, hs, ht⟩
    obtain rfl : n = m := Option.some_inj.1 (hn.symm.trans hm)
    exact ⟨s, hs, ht⟩
  · rintro ⟨s, hs, ht⟩
    exact ⟨n, hn, s, hs, ht⟩

theorem emission_of_node {n : Node} (hn : d.node? i = some n) :
    d.emission S i = {f | ∃ s ∈ S i, f ∈ n.emits s} := by
  ext f
  constructor
  · rintro ⟨m, hm, s, hs, hf⟩
    obtain rfl : n = m := Option.some_inj.1 (hn.symm.trans hm)
    exact ⟨s, hs, hf⟩
  · rintro ⟨s, hs, hf⟩
    exact ⟨n, hn, s, hs, hf⟩

theorem leaving_mono (h : S ≤ T) (e : Edge) : d.leaving facts S e ≤ d.leaving facts T e := by
  rintro i t ⟨n, hn, s, hs, ht⟩
  exact ⟨n, hn, s, h i hs, ht⟩

theorem arriving_mono (h : S ≤ T) : d.arriving facts S ≤ d.arriving facts T := by
  rintro j t ⟨i, n, e, hn, he, ht⟩
  exact ⟨i, n, e, hn, he, leaving_mono h e i ht⟩

@[simp] theorem leaving_bot : d.leaving facts ⊥ e = ⊥ := by
  funext i
  exact Set.eq_empty_iff_forall_notMem.2 fun t ⟨_, _, _, hs, _⟩ => hs

@[simp] theorem emission_bot : d.emission ⊥ i = ∅ :=
  Set.eq_empty_iff_forall_notMem.2 fun _ ⟨_, _, _, hs, _⟩ => hs

@[simp] theorem arriving_bot : d.arriving facts ⊥ = ⊥ := by
  funext j
  exact Set.eq_empty_iff_forall_notMem.2 fun t ⟨_, _, _, _, _, _, _, _, hs, _⟩ => hs

/-- Snapshots leave a node one by one: what a union of families sends is the union of what they
send. -/
theorem leaving_sup : d.leaving facts (S ⊔ T) e = d.leaving facts S e ⊔ d.leaving facts T e := by
  funext i
  ext t
  constructor
  · rintro ⟨n, hn, s, hs | hs, ht⟩
    · exact .inl ⟨n, hn, s, hs, ht⟩
    · exact .inr ⟨n, hn, s, hs, ht⟩
  · rintro (⟨n, hn, s, hs, ht⟩ | ⟨n, hn, s, hs, ht⟩)
    · exact ⟨n, hn, s, .inl hs, ht⟩
    · exact ⟨n, hn, s, .inr hs, ht⟩

theorem emission_sup : d.emission (S ⊔ T) i = d.emission S i ∪ d.emission T i := by
  ext f
  constructor
  · rintro ⟨n, hn, s, hs | hs, hf⟩
    · exact .inl ⟨n, hn, s, hs, hf⟩
    · exact .inr ⟨n, hn, s, hs, hf⟩
  · rintro (⟨n, hn, s, hs, hf⟩ | ⟨n, hn, s, hs, hf⟩)
    · exact ⟨n, hn, s, .inl hs, hf⟩
    · exact ⟨n, hn, s, .inr hs, hf⟩

theorem arriving_sup : d.arriving facts (S ⊔ T) = d.arriving facts S ⊔ d.arriving facts T := by
  funext j
  ext t
  simp only [arriving, leaving_sup]
  constructor
  · rintro ⟨i, n, e, hn, he, ht | ht⟩
    · exact .inl ⟨i, n, e, hn, he, ht⟩
    · exact .inr ⟨i, n, e, hn, he, ht⟩
  · rintro (⟨i, n, e, hn, he, ht⟩ | ⟨i, n, e, hn, he, ht⟩)
    · exact ⟨i, n, e, hn, he, .inl ht⟩
    · exact ⟨i, n, e, hn, he, .inr ht⟩

/-- Facts that make up the same set have the same effect. -/
theorem leaving_congr_facts {more : List Fact} (h : toSet facts = toSet more) :
    d.leaving facts S e = d.leaving more S e := by
  funext i
  ext t
  constructor
  · rintro ⟨n, hn, s, hs, ht⟩
    exact ⟨n, hn, s, hs, Node.sends_mono (Same.refl n) h.subset (Same.refl s) ht⟩
  · rintro ⟨n, hn, s, hs, ht⟩
    exact ⟨n, hn, s, hs, Node.sends_mono (Same.refl n) h.superset (Same.refl s) ht⟩

theorem arriving_congr_facts {more : List Fact} (h : toSet facts = toSet more) :
    d.arriving facts S = d.arriving more S := by
  funext j
  simp only [arriving, leaving_congr_facts h]

/-! ## Closed families -/

/-- **A family that is closed under propagation**: it does not tell snapshots apart that are the
same, it holds the empty snapshot at the root, and what a branch delivers for one of its snapshots
it holds at the target of the edge, where there is one. -/
structure Closed (d : Diagram) (facts : List Fact) (S : Family) : Prop where
  same : ∀ {i s t}, Same s t → s ∈ S i → t ∈ S i
  root : .empty ∈ S d.root
  onMatch : ∀ {i p m f s t}, d.node? i = some (.branch p (some m) f) → s ∈ S i →
    t ∈ (propagate p facts [s]).onMatch → t ∈ S m
  onRefute : ∀ {i p m f s t}, d.node? i = some (.branch p m (some f)) → s ∈ S i →
    t ∈ (propagate p facts [s]).onRefute → t ∈ S f

variable (d facts)

/-- One step of the approximation: everything is taken anew. -/
def advance : Family →o Family where
  toFun S := d.entering ⊔ d.arriving facts S
  monotone' _ _ h := sup_le_sup_left (arriving_mono h) _

/-- **The snapshots that arrive**: the least family that a step of the approximation does not
change. -/
def arrivals : Family := (d.advance facts).lfp

/-- The snapshots that arrive within a number of rounds. -/
def arrivalsWithin (k : ℕ) : Family := (d.advance facts)^[k] ⊥

variable {d facts}

theorem advance_apply : d.advance facts S = d.entering ⊔ d.arriving facts S := rfl

theorem arriving_subset_of_closed (h : d.Closed facts S) : d.arriving facts S ≤ S := by
  rintro j t ⟨i, n, e, hn, he, n', hn', s, hs, ht⟩
  obtain rfl : n = n' := Option.some_inj.1 (hn.symm.trans hn')
  cases n with
  | leaf p => exact ht.elim
  | branch p m f =>
    obtain ⟨u, hu, hut⟩ := mem_toSet.1 ht
    simp only [Node.children, List.mem_cons, Prod.mk.injEq, List.not_mem_nil, or_false] at he
    rcases he with ⟨rfl, rfl⟩ | ⟨rfl, rfl⟩
    · exact h.same hut (h.onMatch hn hs hu)
    · exact h.same hut (h.onRefute hn hs hu)

theorem advance_le_of_closed (h : d.Closed facts S) : d.advance facts S ≤ S := by
  refine sup_le ?_ (arriving_subset_of_closed h)
  rintro i t ⟨rfl, ht⟩
  exact h.same ht h.root

theorem arrivals_same (hst : Same s t) (h : s ∈ d.arrivals facts i) : t ∈ d.arrivals facts i := by
  rw [arrivals, ← OrderHom.map_lfp, advance_apply] at h ⊢
  rcases h with ⟨hi, hs⟩ | ⟨i', n, e, hn, he, n', hn', s', hs', hs⟩
  · exact .inl ⟨hi, hs.trans hst⟩
  · exact .inr ⟨i', n, e, hn, he, n', hn', s', hs', Node.mem_sends_of_same hst hs⟩

theorem mem_arrivals_of_child {n : Node} (hn : d.node? i = some n) (he : (e, some j) ∈ n.children)
    (hs : s ∈ d.arrivals facts i) (ht : t ∈ n.sends facts e s) : t ∈ d.arrivals facts j := by
  rw [arrivals, ← OrderHom.map_lfp, advance_apply]
  exact .inr ⟨i, n, e, hn, he, n, hn, s, hs, ht⟩

theorem closed_arrivals : d.Closed facts (d.arrivals facts) where
  same := arrivals_same
  root := by
    rw [arrivals, ← OrderHom.map_lfp, advance_apply]
    exact .inl ⟨rfl, Same.refl _⟩
  onMatch hn hs ht :=
    mem_arrivals_of_child (e := .onMatch) hn (by simp [Node.children]) hs (mem_toSet_of_mem ht)
  onRefute hn hs ht :=
    mem_arrivals_of_child (e := .onRefute) hn (by simp [Node.children]) hs (mem_toSet_of_mem ht)

/-- The snapshots that arrive are the least family that is closed under propagation. -/
theorem isLeast_arrivals : IsLeast {S | d.Closed facts S} (d.arrivals facts) :=
  ⟨closed_arrivals, fun _ h => OrderHom.lfp_le _ (advance_le_of_closed h)⟩

/-! ## Approximations -/

theorem arrivalsWithin_zero : d.arrivalsWithin facts 0 = ⊥ := rfl

theorem arrivalsWithin_succ (k : ℕ) :
    d.arrivalsWithin facts (k + 1) = d.entering ⊔ d.arriving facts (d.arrivalsWithin facts k) := by
  rw [arrivalsWithin, Function.iterate_succ_apply', advance_apply, arrivalsWithin]

theorem arrivalsWithin_one : d.arrivalsWithin facts 1 = d.entering := by
  rw [arrivalsWithin_succ, arrivalsWithin_zero, arriving_bot, sup_bot_eq]

theorem arrivalsWithin_le_succ (k : ℕ) :
    d.arrivalsWithin facts k ≤ d.arrivalsWithin facts (k + 1) := by
  induction k with
  | zero => exact bot_le
  | succ k ih =>
    rw [arrivalsWithin_succ k, arrivalsWithin_succ (k + 1)]
    exact sup_le_sup_left (arriving_mono ih) _

theorem arrivalsWithin_mono : Monotone (d.arrivalsWithin facts) :=
  monotone_nat_of_le_succ arrivalsWithin_le_succ

/-- Of what arrived within a round more, only what is new can send anything new. -/
theorem arrivalsWithin_succ_succ (k : ℕ) :
    d.arrivalsWithin facts (k + 2) = d.arrivalsWithin facts (k + 1) ⊔
      d.arriving facts (d.arrivalsWithin facts (k + 1) \ d.arrivalsWithin facts k) := by
  calc d.arrivalsWithin facts (k + 2)
      = d.entering ⊔ d.arriving facts (d.arrivalsWithin facts k ⊔
          d.arrivalsWithin facts (k + 1) \ d.arrivalsWithin facts k) := by
        rw [arrivalsWithin_succ, sup_sdiff_cancel_right (arrivalsWithin_le_succ k)]
    _ = d.arrivalsWithin facts (k + 1) ⊔
          d.arriving facts (d.arrivalsWithin facts (k + 1) \ d.arrivalsWithin facts k) := by
        rw [arriving_sup, ← sup_assoc, ← arrivalsWithin_succ]

theorem arrivalsWithin_le_arrivals (k : ℕ) : d.arrivalsWithin facts k ≤ d.arrivals facts := by
  induction k with
  | zero => exact bot_le
  | succ k ih =>
    rw [arrivalsWithin_succ, arrivals, ← OrderHom.map_lfp, advance_apply]
    exact sup_le_sup_left (arriving_mono ih) _

/-- Where a round brings nothing new, all that ever arrives has arrived. -/
theorem arrivals_eq_of_stable {k : ℕ}
    (h : d.arrivalsWithin facts (k + 1) = d.arrivalsWithin facts k) :
    d.arrivals facts = d.arrivalsWithin facts k := by
  refine le_antisymm (OrderHom.lfp_le _ ?_) (arrivalsWithin_le_arrivals k)
  rw [advance_apply, ← arrivalsWithin_succ, h]

end Diagram

end RuleDiagram
