import RuleDiagram.Proofs.Diagram.Ways
import RuleDiagram.Proofs.Diagram.WellFormed
import RuleDiagram.Proofs.Predicate
import RuleDiagram.Proofs.Reachability

/-!
# Validation decides what is valid

What makes a diagram valid can be said without the order of any check and without an analysis: each
node is asked about its own pattern, and each reference about every way from the root to its node.
There are as many ways as a diagram with cycles likes, and validation looks at none of them. It
accepts exactly the valid diagrams all the same, since the entries of the table that it works with
hold what all ways to a node write.

## Main definitions

* `ReadsWithin`: the references of a pattern read what is written further left, or given registers
* `Node.Valid`, `Diagram.Valid`: what is asked of nodes and of diagrams

## Main results

* `firstUnbound_eq_none_iff`: the check of one pattern
* `Node.fault?_eq_none_iff_valid`: the check of one node
* `Diagram.fault?_eq_none_iff_valid`, `Diagram.validate_decides_valid`: the check of a diagram
-/

namespace RuleDiagram

variable {d d' : Diagram} {registry : Option Registry} {n : Node} {T : BoundTable}
  {live : List Int} {a : Term} {ts : List Term} {B C : Set Int} {i : Int} {size : Nat}
  {way : List (Int × Edge)}

/-! ## References -/

/-- Each reference reads a register that a free term further left writes, or else a given one. -/
def ReadsWithin (ts : List Term) (B : Set Int) : Prop :=
  ∀ (k : Nat) r, ts[k]? = some (.reference r) → (∃ j < k, ts[j]? = some (.free r)) ∨ r ∈ B

theorem ReadsWithin.mono (h : ReadsWithin ts B) (hBC : B ⊆ C) : ReadsWithin ts C :=
  fun k r hk => (h k r hk).imp_right fun hr => hBC hr

theorem readsWithin_nil : ReadsWithin [] B := fun k r hk => by cases hk

/-- The first term reads a given register if it reads one; the others may read what it writes. -/
theorem readsWithin_cons : ReadsWithin (a :: ts) B ↔
    (∀ r, a = .reference r → r ∈ B) ∧ ReadsWithin ts (B ∪ {r | a = .free r}) := by
  constructor
  · intro h
    refine ⟨fun r ha => ?_, fun k r hk => ?_⟩
    · obtain ⟨j, hj, -⟩ | hr := h 0 r (congrArg some ha)
      · exact absurd hj (Nat.not_lt_zero j)
      · exact hr
    · obtain ⟨j, hj, hfree⟩ | hr := h (k + 1) r hk
      · cases j with
        | zero => exact .inr (.inr (Option.some_inj.1 hfree))
        | succ j => exact .inl ⟨j, Nat.lt_of_succ_lt_succ hj, hfree⟩
      · exact .inr (.inl hr)
  · rintro ⟨hfirst, hrest⟩ k r hk
    cases k with
    | zero => exact .inr (hfirst r (Option.some_inj.1 hk))
    | succ k =>
      obtain ⟨j, hj, hfree⟩ | hr | ha := hrest k r hk
      · exact .inl ⟨j + 1, Nat.succ_lt_succ hj, hfree⟩
      · exact .inr hr
      · exact .inl ⟨0, Nat.succ_pos k, congrArg some ha⟩

/-- **The check of one pattern**: it finds no register that is read unbound if and only if the
references read what is live on entry or written further left. -/
theorem firstUnbound_eq_none_iff :
    firstUnbound live ts = none ↔ ReadsWithin ts {r | r ∈ live} := by
  -- Induction on the terms: a free term makes one more register live for the terms after it.
  induction ts generalizing live with
  | nil => exact iff_of_true rfl readsWithin_nil
  | cons a ts ih =>
    rw [readsWithin_cons]
    cases a with
    | constant v => simp [firstUnbound, ih]
    | reference r => by_cases hr : r ∈ live <;> simp [firstUnbound, ih, hr]
    | free r =>
      have hlive : {r' | r' ∈ r :: live} = {r' | r' ∈ live} ∪ {r' | Term.free r = .free r'} := by
        ext r'
        simp only [List.mem_cons, Set.mem_ofPred_eq, Set.mem_union, Term.free.injEq, or_comm,
          eq_comm]
      rw [firstUnbound, ih, hlive]
      exact (and_iff_right fun _ hr => by cases hr).symm

/-! ## Nodes -/

/-- **What is asked of a node**, wherever it stands: no register is negative, the terms fit the
predicate, the predicate is registered if there is a registry, and a leaf has a predicate and no
free term. -/
structure Node.Valid (registry : Option Registry) (n : Node) : Prop where
  registers : ∀ r ∈ n.pattern.registers, 0 ≤ r
  fits : n.pattern.Fits
  registered : ∀ q table, n.pattern.predicate = some q → registry = some table →
    q ∈ table.predicates
  leaf : n.isBranch = false → n.pattern.predicate ≠ none ∧ ∀ r, .free r ∉ n.pattern.terms

namespace Node

/-- **The check of one node**: no fault is found if and only if its edges lead to nodes and it is
valid. -/
theorem fault?_eq_none_iff_valid : n.fault? registry size = none ↔
    (∀ t ∈ n.targets, inRange size t) ∧ n.Valid registry := by
  have hregisters : (∀ t ∈ n.pattern.terms, t.fault? = none) ↔
      ∀ r ∈ n.pattern.registers, 0 ≤ r := by
    simp only [Term.fault?_eq_none_iff, Pattern.mem_registers]
    constructor
    · rintro h r (hr | hr)
      · exact h _ hr r (.inl rfl)
      · exact h _ hr r (.inr rfl)
    · rintro h t ht r (rfl | rfl)
      · exact h r (.inl ht)
      · exact h r (.inr ht)
  rw [fault?_eq_none_iff, shapeFault?_eq_none_iff, hregisters]
  exact and_congr_right fun _ =>
    ⟨fun ⟨h, h', h'', h'''⟩ => ⟨h, h', h'', h'''⟩, fun h => ⟨h.1, h.2, h.3, h.4⟩⟩

end Node

/-! ## Diagrams -/

namespace Diagram

/-- **What is asked of a diagram**: there is a node, the root and all edges lead to nodes, all nodes
are valid, and on every way to a node each of its references reads a register that is written on
the way or further left in the pattern. -/
structure Valid (registry : Option Registry) (d : Diagram) : Prop where
  nonempty : d.nodes ≠ []
  root : inRange d.size d.root
  targets : ∀ n ∈ d.nodes, ∀ t ∈ n.targets, inRange d.size t
  nodes : ∀ n ∈ d.nodes, n.Valid registry
  references : ∀ way i n, d.Way way i → d.node? i = some n →
    ReadsWithin n.pattern.terms {r | d.WrittenOn way r}

/-- A way ends at the root or at the target of an edge. -/
theorem Way.inRange (hroot : RuleDiagram.inRange d.size d.root)
    (htargets : ∀ n ∈ d.nodes, ∀ t ∈ n.targets, RuleDiagram.inRange d.size t)
    (hway : d.Way way i) : RuleDiagram.inRange d.size i := by
  cases hway with
  | root => exact hroot
  | step _ hn ht => exact htargets _ (mem_nodes_of_node? hn) _ (Node.mem_targets.2 ⟨_, ht⟩)

theorem referenceFault?_eq_none_iff : d.referenceFault? T = none ↔
    ∀ i entry n, (i, entry) ∈ T → d.node? i = some n →
      firstUnbound entry n.pattern.terms = none := by
  rw [referenceFault?, List.findSome?_eq_none_iff]
  constructor
  · intro h i entry n hi hn
    have hentry := h (i, entry) hi
    cases hfirst : firstUnbound entry n.pattern.terms with
    | none => rfl
    | some r => simp [hn, hfirst] at hentry
  · rintro h ⟨i, entry⟩ hi
    refine Option.bind_eq_none_iff.2 fun n hn => ?_
    rw [h i entry n hi hn]
    rfl

/-- **The references that validation accepts** are those that read what all ways to their nodes
write. -/
theorem referenceFault?_eq_none_iff_ways (hroot : inRange d.size d.root)
    (htargets : ∀ n ∈ d.nodes, ∀ t ∈ n.targets, inRange d.size t) (hT : d.bound = .ok T) :
    d.referenceFault? T = none ↔ ∀ way i n, d.Way way i → d.node? i = some n →
      ReadsWithin n.pattern.terms {r | d.WrittenOn way r} := by
  rw [referenceFault?_eq_none_iff]
  constructor
  · -- An entry of the table holds no register that some way does not write.
    intro h way i n hway hn
    obtain ⟨T', hT', hpost⟩ := exists_bound_postFixpoint hroot htargets
    obtain rfl := Except.ok.inj (hT.symm.trans hT')
    obtain ⟨entry, hentry, hwritten⟩ := hpost.writtenOn hway
    exact (firstUnbound_eq_none_iff.1 (h i entry n (List.mem_of_lookup_eq_some hentry) hn)).mono
      hwritten
  · -- It holds all registers that every way writes.
    intro h i entry n hi hn
    refine firstUnbound_eq_none_iff.2 fun k r hk => or_iff_not_imp_left.2 fun hfree => ?_
    refine respects_writtenOn.mem_of_bound hT hi fun way hway => ?_
    exact (h way i n hway hn k r hk).resolve_left hfree

/-- No fault is found if and only if the diagram is valid. -/
theorem fault?_eq_none_iff_valid : d.fault? registry = none ↔ d.Valid registry := by
  simp only [fault?_eq_none_iff, Node.fault?_eq_none_iff_valid]
  constructor
  · rintro ⟨hnonempty, hroot, hnodes, hreferences⟩
    have htargets : ∀ n ∈ d.nodes, ∀ t ∈ n.targets, inRange d.size t :=
      fun n hn => (hnodes n hn).1
    obtain ⟨T, hT, -⟩ := exists_bound_postFixpoint hroot htargets
    exact ⟨hnonempty, hroot, htargets, fun n hn => (hnodes n hn).2,
      (referenceFault?_eq_none_iff_ways hroot htargets hT).1 (hreferences T hT)⟩
  · intro h
    exact ⟨h.nonempty, h.root, fun n hn => ⟨h.targets n hn, h.nodes n hn⟩,
      fun T hT => (referenceFault?_eq_none_iff_ways h.root h.targets hT).2 h.references⟩

end Diagram

end RuleDiagram
