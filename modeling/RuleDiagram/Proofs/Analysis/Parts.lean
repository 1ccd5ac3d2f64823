import RuleDiagram.Analysis.Escape
import RuleDiagram.Proofs.Diagram.Editing
import RuleDiagram.Proofs.Run.FactPattern

/-!
# What the parts of a graft produce

The parts of a graft are read in a diagram that holds their nodes from some index on. What comes of
a snapshot at the entry of a part is given by one equation for each kind of part: a fan-out produces
what all its targets do, tests let through what lies behind them if all their facts are given, and a
gate answers with the outputs of its example if all the inputs are given.

## Main definitions

* `Diagram.Holds`: nodes stand in a diagram from an index on
* `Opens`, `Serves`: what the ways into the old root give, and what a graft gives

## Main results

* `Diagram.produced_fanOut`, `Diagram.produced_testAll`, `Diagram.produced_gate`: the parts
* `Diagram.opens_route`: the way into the old root that a correct example keeps open
-/

namespace RuleDiagram

open ListSet

namespace Diagram

variable {d : Diagram} {facts fs : List Fact} {next root : Int} {xs ys : List Node} {s : Snapshot}
  {f : Fact} {entry : Option Int} {part : Part}

/-- The nodes stand in the diagram from an index on. -/
def Holds (d : Diagram) (next : Int) (nodes : List Node) : Prop :=
  ∀ (k : Nat) (n : Node), nodes[k]? = some n → d.node? (next + k) = some n

theorem Holds.left (h : d.Holds next (xs ++ ys)) : d.Holds next xs := by
  intro k n hn
  obtain ⟨hlt, -⟩ := List.getElem?_eq_some_iff.1 hn
  exact h k n ((List.getElem?_append_left hlt).trans hn)

theorem Holds.right (h : d.Holds next (xs ++ ys)) : d.Holds (next + xs.length) ys := by
  intro k n hn
  have hk := h (xs.length + k) n (by
    rw [List.getElem?_append_right (Nat.le_add_right _ _), Nat.add_sub_cancel_left, hn])
  rwa [Int.natCast_add, ← Int.add_assoc] at hk

theorem Holds.head {n : Node} (h : d.Holds next (n :: xs)) : d.node? next = some n := by
  simpa using h 0 n rfl

theorem holds_append (ns : List Node) : (d.append ns).Holds d.size ns := by
  intro k n hn
  rw [node?_append_size_add, hn]

theorem Holds.withRoot (h : d.Holds next xs) : (d.withRoot root).Holds next xs := h

/-- A fan-out produces what its targets do. -/
theorem produced_fanOut {targets : List Int} (h : d.Holds next (fanOut next targets).nodes) :
    d.produced facts (fanOut next targets).entry s =
      {f | ∃ t ∈ targets, f ∈ d.produced facts (some t) s} := by
  induction targets with
  | nil => simp [fanOut]
  | cons target rest ih =>
    cases rest with
    | nil => simp [fanOut]
    | cons t rest =>
      -- One more branch for each target but the last.
      rw [fanOut] at h ⊢
      · rw [produced_passThrough h.right.head rfl, ih h.left]
        ext f
        simp
      · exact List.cons_ne_nil t rest
      · exact List.cons_ne_nil t rest

/-- Tests let through what comes of their entry, if all their facts are given. -/
theorem produced_testAll (h : d.Holds next (testAll next fs entry).nodes) :
    d.produced facts (testAll next fs entry).entry s =
      {f | toSet fs ⊆ toSet facts ∧ f ∈ d.produced facts entry s} := by
  induction fs with
  | nil => simp [testAll]
  | cons f rest ih =>
    rw [testAll] at h ⊢
    have hn := h.right.head
    rw [produced_test hn, ih h.left]
    ext g
    have hcons : toSet (f :: rest) ⊆ toSet facts ↔ f ∈ toSet facts ∧ toSet rest ⊆ toSet facts := by
      rw [← List.singleton_append, toSet_append, Set.union_subset_iff]
      refine and_congr_left fun _ => ⟨fun hf => hf (mem_toSet_of_mem List.mem_cons_self), ?_⟩
      exact fun hf g hg => mem_toSet_of_same (mem_toSet_singleton.1 hg) hf
    simp only [Set.mem_ofPred_eq, hcons, and_assoc]

theorem mem_integersFrom {count : Nat} {i : Int} :
    i ∈ integersFrom next count ↔ ∃ k < count, i = next + (k : Nat) := by
  simp [integersFrom, eq_comm]

/-- **A gate answers with the outputs of its example**, if all its inputs are given. -/
theorem produced_gate {x : Example} (hpart : gate next x = .ok part)
    (h : d.Holds next part.nodes) :
    d.produced facts part.entry s = {f | toSet x.inputs ⊆ toSet facts ∧ f ∈ toSet x.outputs} := by
  rw [gate] at hpart
  split at hpart
  · next hnil =>
    cases hpart
    simp [hnil]
  · simp only [Except.bind_eq_ok_iff, Except.pure_eq_ok_iff] at hpart
    obtain ⟨outputs, houtputs, inputs, hinputs, rfl⟩ := hpart
    rw [produced_testAll h.right, toSet_of_sortFacts hinputs, produced_fanOut h.left.right,
      ← toSet_of_sortFacts houtputs]
    ext f
    simp only [Set.mem_ofPred_eq]
    refine and_congr_right fun _ => ?_
    -- The targets of the fan-out are the leaves, one for each output.
    have hleaf {k : Nat} {g : Fact} (hg : outputs[k]? = some g) :
        d.produced facts (some (next + k)) s = toSet [g] :=
      produced_emit (h.left.left k (.leaf g.asPattern) (by rw [List.getElem?_map, hg]; rfl))
    constructor
    · rintro ⟨t, ht, hf⟩
      obtain ⟨k, hk, rfl⟩ := mem_integersFrom.1 ht
      rw [List.length_map] at hk
      rw [hleaf (List.getElem?_eq_getElem hk), mem_toSet_singleton] at hf
      exact mem_toSet_of_same hf (mem_toSet_of_mem (List.getElem_mem hk))
    · intro hf
      obtain ⟨g, hg, hgf⟩ := mem_toSet.1 hf
      obtain ⟨k, hk⟩ := List.getElem?_of_mem hg
      obtain ⟨hlt, -⟩ := List.getElem?_eq_some_iff.1 hk
      refine ⟨next + k, mem_integersFrom.2 ⟨k, by rwa [List.length_map], rfl⟩, ?_⟩
      rw [hleaf hk, mem_toSet_singleton]
      exact hgf

end Diagram

/-- A way into the old root lets a fact out: an old output, where a fact is given that the example
to be mended lacks; or an output of a correct example that cannot be told from that one by such a
fact, where all inputs of the correct example are given. -/
def Example.LetsOut (kept mended : Example) (facts : List Fact) (old : Set Fact) (f : Fact) :
    Prop :=
  f ∈ old ∧ ¬ toSet facts ⊆ toSet mended.inputs ∨
    toSet kept.inputs ⊆ toSet facts ∧ toSet kept.inputs ⊆ toSet mended.inputs ∧
      f ∈ toSet kept.outputs

/-- **What the ways into the old root give** that correct examples keep open: on the inputs of one
of them at least the old outputs that it wants, and nothing but what some way lets out. -/
structure Opens (kept : List Example) (mended : Example) (facts : List Fact)
    (old given : Set Fact) : Prop where
  keeps : ∀ x ∈ kept, toSet x.inputs ⊆ toSet facts → toSet x.outputs ∩ old ⊆ given
  only : ∀ f ∈ given, ∃ x ∈ kept, x.LetsOut mended facts old f

/-- **What a graft gives**: the outputs of the example to be mended on its inputs, the old outputs
that a correct example wants on the inputs of that one; and else no more than what the ways into the
old root let out, or all old outputs if that root is entered directly. -/
structure Serves (mended : Example) (kept : List Example) (direct : Bool) (facts : List Fact)
    (old given : Set Fact) : Prop where
  mends : toSet mended.inputs ⊆ toSet facts → toSet mended.outputs ⊆ given
  keeps : ∀ x ∈ kept, toSet x.inputs ⊆ toSet facts → toSet x.outputs ∩ old ⊆ given
  only : ∀ f ∈ given, toSet mended.inputs ⊆ toSet facts ∧ f ∈ toSet mended.outputs ∨
    direct ∧ f ∈ old ∨ ∃ x ∈ kept, x.LetsOut mended facts old f

namespace Diagram

variable {d : Diagram} {next root : Int} {part : Part} {mended x : Example} {kept : List Example}
  {direct : Bool} (facts : List Fact) (s : Snapshot)

/-- **The way into the old root that a correct example keeps open.** -/
theorem opens_route (hpart : route next root mended x = .ok part) (h : d.Holds next part.nodes) :
    Opens [x] mended facts (d.produced facts (some root) s) (d.produced facts part.entry s) := by
  rw [route, Except.bind_eq_ok_iff] at hpart
  obtain ⟨missing, hmissing, hpart⟩ := hpart
  have hset : toSet missing = toSet x.inputs \ toSet mended.inputs := by
    rw [toSet_of_sortFacts hmissing, toSet_diff]
  cases missing with
  | nil =>
    -- Nothing tells the example apart: it gets a gate.
    have hsubset : toSet x.inputs ⊆ toSet mended.inputs := by
      rw [toSet_nil, eq_comm, Set.sdiff_eq_empty] at hset
      exact hset
    rw [produced_gate hpart h]
    refine ⟨fun y hy hfacts f hf => ?_, fun f hf => ?_⟩
    · obtain rfl := List.mem_singleton.1 hy
      exact ⟨hfacts, hf.1⟩
    · exact ⟨x, List.mem_singleton_self x, .inr ⟨hf.1, hsubset, hf.2⟩⟩
  | cons witness rest =>
    -- A test of a fact that the example to be mended lacks leads to the old root.
    obtain rfl := Except.pure_eq_ok_iff.1 hpart
    have hwitness : witness ∈ toSet x.inputs \ toSet mended.inputs :=
      hset ▸ mem_toSet_of_mem List.mem_cons_self
    rw [produced_test h.head]
    refine ⟨fun y hy hfacts f hf => ?_, fun f hf => ?_⟩
    · obtain rfl := List.mem_singleton.1 hy
      exact ⟨hfacts hwitness.1, hf.2⟩
    · refine ⟨x, List.mem_singleton_self x, .inl ⟨hf.2, fun hmended => ?_⟩⟩
      exact hwitness.2 (hmended hf.1)

/-- The ways into the old root that the correct examples keep open. -/
theorem opens_routes {nodes : List Node} {entries : List Int}
    (hparts : routes next root mended kept = .ok (nodes, entries)) (h : d.Holds next nodes) :
    Opens kept mended facts (d.produced facts (some root) s)
      {f | ∃ t ∈ entries, f ∈ d.produced facts (some t) s} := by
  induction kept generalizing next nodes entries with
  | nil =>
    obtain ⟨rfl, rfl⟩ := Prod.mk.inj (Except.ok.inj hparts)
    exact ⟨fun x hx => absurd hx List.not_mem_nil, fun f ⟨t, ht, _⟩ => absurd ht List.not_mem_nil⟩
  | cons x rest ih =>
    simp only [routes, Except.bind_eq_ok_iff, Prod.exists, Except.pure_eq_ok_iff,
      Prod.mk.injEq] at hparts
    obtain ⟨part, hpart, nodes', entries', hrest, rfl, rfl⟩ := hparts
    have hopens := opens_route facts s hpart h.left
    have hopens' := ih hrest h.right
    -- The first example has one way or none, the others have the rest.
    have hentry : {f | ∃ t ∈ part.entry.toList ++ entries', f ∈ d.produced facts (some t) s} =
        d.produced facts part.entry s ∪ {f | ∃ t ∈ entries', f ∈ d.produced facts (some t) s} := by
      ext f
      cases part.entry <;> simp
    rw [hentry]
    refine ⟨fun y hy hfacts => ?_, fun f hf => ?_⟩
    · rcases List.mem_cons.1 hy with rfl | hy
      · exact (hopens.keeps y (List.mem_singleton_self y) hfacts).trans Set.subset_union_left
      · exact (hopens'.keeps y hy hfacts).trans Set.subset_union_right
    · rcases hf with hf | hf
      · obtain ⟨y, hy, hlets⟩ := hopens.only f hf
        exact ⟨y, List.mem_cons.2 (.inl (List.mem_singleton.1 hy)), hlets⟩
      · obtain ⟨y, hy, hlets⟩ := hopens'.only f hf
        exact ⟨y, List.mem_cons_of_mem x hy, hlets⟩

/-- The way into the old root, entered directly or by the ways that the correct examples keep
open. -/
theorem opens_oldRoot (hpart : oldRoot next root direct mended kept = .ok part)
    (h : d.Holds next part.nodes) :
    (∀ x ∈ kept, toSet x.inputs ⊆ toSet facts →
      toSet x.outputs ∩ d.produced facts (some root) s ⊆ d.produced facts part.entry s) ∧
    ∀ f ∈ d.produced facts part.entry s, direct ∧ f ∈ d.produced facts (some root) s ∨
      ∃ x ∈ kept, x.LetsOut mended facts (d.produced facts (some root) s) f := by
  cases direct with
  | true =>
    obtain rfl := Except.ok.inj hpart
    exact ⟨fun x _ _ => Set.inter_subset_right, fun f hf => .inl ⟨rfl, hf⟩⟩
  | false =>
    simp only [oldRoot, Bool.false_eq_true, if_false, Except.bind_eq_ok_iff, Prod.exists,
      Except.pure_eq_ok_iff] at hpart
    obtain ⟨nodes, entries, hroutes, rfl⟩ := hpart
    rw [produced_fanOut h.right]
    have hopens := opens_routes facts s hroutes h.left
    exact ⟨hopens.keeps, fun f hf => .inr (hopens.only f hf)⟩

end Diagram

end RuleDiagram
