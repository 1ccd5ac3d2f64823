import RuleDiagram.Diagram.Basic
import RuleDiagram.Run.Propagation
import RuleDiagram.Proofs.Run.Unification

/-!
# What nodes send and emit

A branch delivers a snapshot along an edge because of one fact, or because it is pass-through. What
a node sends for several snapshots is what it sends for each of them, more facts only add to it, and
sameness of nodes, facts and snapshots is respected.

## Main definitions

* `Pattern.Delivers`: one delivery of a branch, for one snapshot along one edge
* `Node.sends`, `Node.emits`: what a node sends along an edge, or emits, for one snapshot

## Main results

* `mem_along_propagate`: propagation lists exactly the deliveries
* `Node.sends_mono`, `Node.emits_mono`: more facts add to what is sent, and sameness is respected
-/

namespace RuleDiagram

open ListSet

variable {p q : Pattern} {facts more : List Fact} {e : Edge} {s t u : Snapshot}

/-- What leaves a branch through one of its edges. -/
def Delivery.along (out : Delivery) : Edge → List Snapshot
  | .root => []
  | .onMatch => out.onMatch
  | .onRefute => out.onRefute

/-- **One delivery of a branch**: for the snapshot `s`, the snapshot `t` leaves through an edge. A
pass-through branch delivers `s` itself through both edges; any other branch delivers, for a fact of
its predicate, the extension of `s` on a match and `s` itself on a refutation. -/
def Pattern.Delivers (p : Pattern) (facts : List Fact) (e : Edge) (s t : Snapshot) : Prop :=
  match e with
  | .root => False
  | .onMatch =>
    (p.predicate = none ∧ t = s) ∨
      ∃ f ∈ facts, p.predicate = some f.predicate ∧ unify p.terms f.values s = some t
  | .onRefute =>
    t = s ∧ (p.predicate = none ∨
      ∃ f ∈ facts, p.predicate = some f.predicate ∧ unify p.terms f.values s = none)

theorem mem_onMatch_propagate {xs : List Snapshot} :
    t ∈ (propagate p facts xs).onMatch ↔ ∃ s ∈ xs, p.Delivers facts .onMatch s t := by
  cases hp : p.predicate with
  | none => simp [propagate, Pattern.Delivers, hp]
  | some r =>
    simp only [propagate, hp, meet, candidates, List.mem_flatMap, List.mem_filterMap,
      List.mem_filter, decide_eq_true_eq, Pattern.Delivers, Option.some_inj, reduceCtorEq,
      false_and, false_or, and_assoc]
    simp only [eq_comm (a := r)]

theorem mem_onRefute_propagate {xs : List Snapshot} :
    t ∈ (propagate p facts xs).onRefute ↔ ∃ s ∈ xs, p.Delivers facts .onRefute s t := by
  cases hp : p.predicate with
  | none => simp [propagate, Pattern.Delivers, hp]
  | some r =>
    simp only [propagate, hp, meet, candidates, List.mem_flatMap, List.mem_map, List.mem_filter,
      decide_eq_true_eq, Pattern.Delivers, Option.some_inj, reduceCtorEq, false_or, and_assoc,
      Option.isNone_iff_eq_none]
    constructor
    · rintro ⟨s, hs, f, hf, hr, hn, rfl⟩
      exact ⟨s, hs, rfl, f, hf, hr.symm, hn⟩
    · rintro ⟨s, hs, rfl, f, hf, hr, hn⟩
      exact ⟨t, hs, f, hf, hr.symm, hn, rfl⟩

/-- Propagation lists the deliveries for the given snapshots, and nothing else. -/
theorem mem_along_propagate {xs : List Snapshot} :
    t ∈ (propagate p facts xs).along e ↔ ∃ s ∈ xs, p.Delivers facts e s t := by
  cases e with
  | root => simp [Delivery.along, Pattern.Delivers]
  | onMatch => exact mem_onMatch_propagate
  | onRefute => exact mem_onRefute_propagate

/-- A delivery remains, up to sameness, when facts are added and things are exchanged for the
same. -/
theorem Pattern.Delivers.mono (hpq : Same p q) (hfacts : toSet facts ⊆ toSet more)
    (hsu : Same s u) (h : p.Delivers facts e s t) :
    ∃ w, q.Delivers more e u w ∧ Same t w := by
  obtain ⟨hpred, hterms⟩ := Pattern.same_iff.1 hpq
  -- Each fact has one that is the same among the others, and unification does not tell them apart.
  have hfact {f : Fact} (hf : f ∈ facts) : ∃ g ∈ more, f.predicate = g.predicate ∧
      Same (unify p.terms f.values s) (unify q.terms g.values u) := by
    obtain ⟨g, hg, hgf⟩ := mem_toSet.1 (hfacts (mem_toSet_of_mem hf))
    obtain ⟨hname, hvalues⟩ := Fact.same_iff.1 hgf.symm
    exact ⟨g, hg, hname, unify_congr hterms hvalues hsu⟩
  cases e with
  | root => exact h.elim
  | onMatch =>
    rcases h with ⟨hp, rfl⟩ | ⟨f, hf, hp, hu⟩
    · exact ⟨u, .inl ⟨hpred ▸ hp, rfl⟩, hsu⟩
    · obtain ⟨g, hg, hname, hsame⟩ := hfact hf
      rw [hu] at hsame
      cases hw : unify q.terms g.values u with
      | none => exact absurd (hw ▸ hsame).symm not_same_none_some
      | some w => exact ⟨w, .inr ⟨g, hg, hpred ▸ hname ▸ hp, hw⟩, same_some_iff.1 (hw ▸ hsame)⟩
  | onRefute =>
    obtain ⟨rfl, hp | ⟨f, hf, hp, hu⟩⟩ := h
    · exact ⟨u, ⟨rfl, .inl (hpred ▸ hp)⟩, hsu⟩
    · obtain ⟨g, hg, hname, hsame⟩ := hfact hf
      rw [hu] at hsame
      cases hw : unify q.terms g.values u with
      | none => exact ⟨u, ⟨rfl, .inr ⟨g, hg, hpred ▸ hname ▸ hp, hw⟩⟩, hsu⟩
      | some w => exact absurd (hw ▸ hsame) not_same_none_some

/-! ## Nodes -/

namespace Node

variable {n m : Node}

/-- The snapshots that a node sends along an edge for one snapshot, up to sameness. -/
def sends (n : Node) (facts : List Fact) (e : Edge) (s : Snapshot) : Set Snapshot :=
  match n with
  | branch p _ _ => toSet ((propagate p facts [s]).along e)
  | leaf _ => ∅

/-- The facts that a node emits for one snapshot, up to sameness. -/
def emits (n : Node) (s : Snapshot) : Set Fact :=
  match n with
  | branch _ _ _ => ∅
  | leaf p => {f | ∃ g, instantiate p s = .ok g ∧ Same g f}

theorem mem_sends_branch {onMatch onRefute : Option Int} :
    t ∈ (branch p onMatch onRefute).sends facts e s ↔ ∃ u, p.Delivers facts e s u ∧ Same u t := by
  simp [sends, mem_toSet, mem_along_propagate]

/-- A pass-through branch sends a snapshot itself along both edges, and nothing else. -/
theorem mem_sends_passThrough {onMatch onRefute : Option Int} (hp : p.predicate = none)
    (he : e ≠ .root) : t ∈ (branch p onMatch onRefute).sends facts e s ↔ Same s t := by
  rw [mem_sends_branch]
  cases e with
  | root => exact absurd rfl he
  | onMatch => simp [Pattern.Delivers, hp]
  | onRefute => simp [Pattern.Delivers, hp]

theorem mem_sends_of_same (hst : Same t u) (h : t ∈ n.sends facts e s) : u ∈ n.sends facts e s := by
  cases n with
  | leaf p => exact h.elim
  | branch p m f => exact mem_toSet_of_same hst h

theorem same_iff : Same n m ↔
    (∃ p q a b, n = branch p a b ∧ m = branch q a b ∧ Same p q) ∨
      ∃ p q, n = leaf p ∧ m = leaf q ∧ Same p q := by
  show canonical n = canonical m ↔ _
  cases n <;> cases m <;> simp [canonical, Same]
  grind

/-- More facts only add to what is sent, and nodes and snapshots may be exchanged for the same. -/
theorem sends_mono (hnm : Same n m) (hfacts : toSet facts ⊆ toSet more) (hst : Same s t) :
    n.sends facts e s ⊆ m.sends more e t := by
  intro x hx
  rcases same_iff.1 hnm with ⟨p, q, a, b, rfl, rfl, hpq⟩ | ⟨p, q, rfl, rfl, hpq⟩
  · obtain ⟨u, hu, hux⟩ := mem_sends_branch.1 hx
    obtain ⟨w, hw, huw⟩ := hu.mono hpq hfacts hst
    exact mem_sends_branch.2 ⟨w, hw, huw.symm.trans hux⟩
  · exact hx.elim

theorem emits_mono (hnm : Same n m) (hst : Same s t) : n.emits s ⊆ m.emits t := by
  rintro f hf
  rcases same_iff.1 hnm with ⟨p, q, a, b, rfl, rfl, hpq⟩ | ⟨p, q, rfl, rfl, hpq⟩
  · exact hf.elim
  · obtain ⟨g, hg, hgf⟩ := hf
    obtain ⟨k, hk, hgk⟩ := instantiate_congr hpq hst hg
    exact ⟨k, hk, hgk.symm.trans hgf⟩

/-- What a branch sends for several snapshots is what it sends for each of them. -/
theorem mem_toSet_along_propagate {xs : List Snapshot} {a b : Option Int} :
    t ∈ toSet ((propagate p facts xs).along e) ↔
      ∃ s ∈ toSet xs, t ∈ (branch p a b).sends facts e s := by
  constructor
  · intro h
    obtain ⟨u, hu, hut⟩ := mem_toSet.1 h
    obtain ⟨s, hs, hd⟩ := mem_along_propagate.1 hu
    exact ⟨s, mem_toSet_of_mem hs, mem_sends_branch.2 ⟨u, hd, hut⟩⟩
  · rintro ⟨s, hs, ht⟩
    obtain ⟨s', hs', hss'⟩ := mem_toSet.1 hs
    obtain ⟨u, hu, hut⟩ := mem_sends_branch.1 (sends_mono (Same.refl _) subset_rfl hss'.symm ht)
    exact mem_toSet.2 ⟨u, mem_along_propagate.2 ⟨s', hs', hu⟩, hut⟩

end Node

end RuleDiagram
