import RuleDiagram.Proofs.Diagram.BoundTable
import RuleDiagram.Proofs.Predicate

/-!
# What validation promises

A diagram that validation accepts has its root and all targets in range, patterns that fit their
predicates, and a table of bound registers that every edge respects and that covers every reference
of the nodes in it.

## Main definitions

* `Diagram.WellFormed`: what validation promises

## Main results

* `Node.shapeFault?_eq_none_iff`: what a pattern without a fault passes
* `Diagram.fault?_eq_none_iff`: what a diagram without a fault passes
* `Diagram.wellFormed_of_fault?_eq_none`: validation keeps its promise
-/

namespace RuleDiagram

variable {d : Diagram} {registry : Option Registry} {live : List Int} {ts : List Term}

/-- The terms fit the predicate: as many as its arguments, or none without a predicate. -/
def Pattern.Fits (p : Pattern) : Prop :=
  match p.predicate with
  | none => p.terms = []
  | some q => (p.terms.length : Int) = q.arity

/-- **What validation promises of a diagram.** -/
structure Diagram.WellFormed (d : Diagram) : Prop where
  root : inRange d.size d.root
  targets : ∀ n ∈ d.nodes, ∀ t ∈ n.targets, inRange d.size t
  fits : ∀ n ∈ d.nodes, n.pattern.Fits
  leaf : ∀ p, .leaf p ∈ d.nodes → p.predicate ≠ none ∧ ∀ t ∈ p.terms, t.written? = none
  bound : ∃ T, d.bound = .ok T ∧ d.PostFixpoint T ∧
    ∀ i entry n, T.lookup i = some entry → d.node? i = some n →
      firstUnbound entry n.pattern.terms = none

theorem Term.fault?_eq_none_iff {a : Term} :
    a.fault? = none ↔ ∀ r, .reference r = a ∨ .free r = a → 0 ≤ r := by
  cases a <;> simp [fault?]

theorem targetFault?_eq_none_iff {length : Nat} {e : Edge} {t : Int} :
    targetFault? length (e, some t) = none ↔ inRange length t := by
  simp [targetFault?]

theorem Node.mem_targets {n : Node} {t : Int} :
    t ∈ n.targets ↔ ∃ e, (e, some t) ∈ n.children := by
  simp [targets, List.mem_filterMap]

namespace Node

variable {n : Node} {size : Nat}

theorem fault?_eq_none_iff : n.fault? registry size = none ↔
    (∀ t ∈ n.targets, inRange size t) ∧ (∀ t ∈ n.pattern.terms, t.fault? = none) ∧
      n.shapeFault? registry = none := by
  rw [fault?, Option.or_eq_none_iff, Option.or_eq_none_iff, List.findSome?_eq_none_iff,
    List.findSome?_eq_none_iff]
  refine and_congr_left fun _ => ⟨fun h t ht => ?_, fun h x hx => ?_⟩
  · obtain ⟨e, he⟩ := mem_targets.1 ht
    exact targetFault?_eq_none_iff.1 (h _ he)
  · obtain ⟨e, t⟩ := x
    cases t with
    | none => rfl
    | some t => exact targetFault?_eq_none_iff.2 (h t (mem_targets.2 ⟨e, hx⟩))

theorem exists_free_iff : (ts.any fun t => t.written?.isSome) = true ↔ ∃ r, .free r ∈ ts := by
  rw [List.any_eq_true]
  constructor
  · rintro ⟨t, ht, hwritten⟩
    cases t with
    | free r => exact ⟨r, ht⟩
    | constant v | reference r => cases hwritten
  · rintro ⟨r, hr⟩
    exact ⟨_, hr, rfl⟩

/-- **The check of a node's pattern**: its terms fit its predicate, which is registered if there is
a registry, and a leaf has a predicate and no free term. -/
theorem shapeFault?_eq_none_iff : n.shapeFault? registry = none ↔
    n.pattern.Fits ∧
      (∀ q table, n.pattern.predicate = some q → registry = some table → q ∈ table.predicates) ∧
      (n.isBranch = false → n.pattern.predicate ≠ none ∧ ∀ r, .free r ∉ n.pattern.terms) := by
  have hfree : (∀ r, .free r ∉ n.pattern.terms) ↔
      (n.pattern.terms.any fun t => t.written?.isSome) = false := by
    rw [← Bool.not_eq_true, exists_free_iff, not_exists]
  cases hp : n.pattern.predicate with
  | none => cases hbranch : n.isBranch <;> simp [shapeFault?, Pattern.Fits, hp, hbranch]
  | some q =>
    have hregistered : (∀ q' table, some q = some q' → registry = some table →
        q' ∈ table.predicates) ↔ (registry.any fun table => !table.has q) = false := by
      cases registry with
      | none => simp
      | some table => simp [← Registry.has_iff_mem]
    rw [hregistered, hfree]
    by_cases hlength : (n.pattern.terms.length : Int) = q.arity
    · cases hknown : registry.any fun table => !table.has q <;>
        cases hbranch : n.isBranch <;>
          cases hany : n.pattern.terms.any fun t => t.written?.isSome <;>
            simp [shapeFault?, Pattern.Fits, hp, hlength, hknown, hbranch, hany]
    · simp [shapeFault?, Pattern.Fits, hp, hlength]

theorem fits_of_shapeFault? (h : n.shapeFault? registry = none) : n.pattern.Fits :=
  (shapeFault?_eq_none_iff.1 h).1

theorem leaf_of_shapeFault? {p : Pattern} (h : (leaf p).shapeFault? registry = none) :
    p.predicate ≠ none ∧ ∀ t ∈ p.terms, t.written? = none := by
  obtain ⟨hpredicate, hfree⟩ := (shapeFault?_eq_none_iff.1 h).2.2 rfl
  refine ⟨hpredicate, fun t ht => ?_⟩
  cases t with
  | constant v | reference r => rfl
  | free r => exact absurd ht (hfree r)

end Node

namespace Diagram

theorem nodeFault?_eq_none_iff {size : Nat} : (d.nodes.zipIdx.findSome? fun x =>
      (x.1.fault? registry size).map fun cause => (⟨some (x.2 : Int), cause⟩ : Fault)) = none ↔
    ∀ n ∈ d.nodes, n.fault? registry size = none := by
  rw [List.findSome?_eq_none_iff]
  constructor
  · intro h n hn
    obtain ⟨i, hi⟩ := List.getElem?_of_mem hn
    exact Option.map_eq_none_iff.1 (h (n, i) (List.mem_zipIdx_iff_getElem?.2 hi))
  · rintro h ⟨n, i⟩ hi
    exact Option.map_eq_none_iff.2 (h n (List.fst_mem_of_mem_zipIdx hi))

theorem fault?_eq_none_iff : d.fault? registry = none ↔
    d.nodes ≠ [] ∧ inRange d.size d.root ∧ (∀ n ∈ d.nodes, n.fault? registry d.size = none) ∧
      ∀ T, d.bound = .ok T → d.referenceFault? T = none := by
  unfold fault?
  by_cases hnil : d.nodes = []
  · simp [hnil]
  · by_cases hroot : inRange d.size d.root
    · rw [if_neg hnil, if_neg (by simp [hroot]), Option.or_eq_none_iff, nodeFault?_eq_none_iff]
      cases d.bound <;> simp [hnil, hroot]
    · simp [hnil, hroot]

/-- Where the root is in range and no node is at fault, a reference is. -/
theorem exists_unboundReference {f : Fault} (hne : d.nodes ≠ []) (hroot : inRange d.size d.root)
    (hnodes : ∀ n ∈ d.nodes, n.fault? registry d.size = none) (h : d.fault? registry = some f) :
    ∃ i found, f = ⟨some i, .unboundReference found⟩ := by
  unfold fault? at h
  rw [if_neg hne, if_neg (by simp [hroot]), nodeFault?_eq_none_iff.2 hnodes, Option.none_or] at h
  cases hT : d.bound with
  | error e => simp [hT] at h
  | ok T =>
    simp only [hT] at h
    obtain ⟨⟨i, entry⟩, -, hentry⟩ := List.exists_of_findSome?_eq_some h
    obtain ⟨n, -, hn⟩ := Option.bind_eq_some_iff.1 hentry
    obtain ⟨r, -, hr⟩ := Option.bind_eq_some_iff.1 hn
    exact ⟨i, integerText r, (Option.some_inj.1 hr).symm⟩

theorem validate_eq_ok_iff {d' : Diagram} :
    d.validate registry = .ok d' ↔ d.fault? registry = none ∧ d' = d := by
  unfold validate
  split
  · next f hf => simp [hf]
  · next hf => simp [hf, eq_comm]

theorem firstUnbound_of_referenceFault? {T : BoundTable} {i : Int} {entry : List Int} {n : Node}
    (h : d.referenceFault? T = none) (hi : T.lookup i = some entry) (hn : d.node? i = some n) :
    firstUnbound entry n.pattern.terms = none := by
  have hentry := List.findSome?_eq_none_iff.1 h _ (List.mem_of_lookup_eq_some hi)
  cases hfirst : firstUnbound entry n.pattern.terms with
  | none => rfl
  | some r => simp [hn, hfirst] at hentry

/-- **Validation keeps its promise.** -/
theorem wellFormed_of_fault?_eq_none (h : d.fault? registry = none) : d.WellFormed := by
  obtain ⟨-, hroot, hnodes, hreferences⟩ := fault?_eq_none_iff.1 h
  have hnode (n : Node) (hn : n ∈ d.nodes) := Node.fault?_eq_none_iff.1 (hnodes n hn)
  have htargets : ∀ n ∈ d.nodes, ∀ t ∈ n.targets, inRange d.size t := fun n hn => (hnode n hn).1
  obtain ⟨T, hT, hpost⟩ := exists_bound_postFixpoint hroot htargets
  exact
    { root := hroot
      targets := htargets
      fits := fun n hn => Node.fits_of_shapeFault? (hnode n hn).2.2
      leaf := fun p hp => Node.leaf_of_shapeFault? (hnode _ hp).2.2
      bound := ⟨T, hT, hpost, fun i entry n hi hn =>
        firstUnbound_of_referenceFault? (hreferences T hT) hi hn⟩ }

end Diagram

end RuleDiagram
