import RuleDiagram.Proofs.Analysis.Graft
import RuleDiagram.Proofs.Diagram.Respected

/-!
# Grafted diagrams are well formed

The nodes of a graft lead to each other or to the old root, where no register need be bound, and
they read none. So nothing is required of them that was not required before, and each old node is
entered with at least the registers that its entry in the old table lists.

## Main definitions

* `Diagram.required`: the registers required at an index of the grown diagram

## Main results

* `Diagram.respects_required`: the edges of the grafted diagram respect them
* `Diagram.fault?_grafted_eq_none`: a grafted diagram is as well formed as before
-/

namespace RuleDiagram

variable {d : Diagram} {registry : Option Registry} {ns : List Node} {root i : Int} {n : Node}
  {known : Fact → Prop} {A : Int → Prop} {T : BoundTable} {live : List Int} {ts : List Term}
  {f : Fact}

/-! ## Registers that terms read unbound -/

theorem firstUnbound_mono {more : List Int} (h : live ⊆ more) (hts : firstUnbound live ts = none) :
    firstUnbound more ts = none := by
  induction ts generalizing live more with
  | nil => rfl
  | cons t ts ih =>
    cases t with
    | constant v => exact ih h hts
    | reference r =>
      rw [firstUnbound] at hts ⊢
      by_cases hr : r ∈ live
      · rw [if_pos hr] at hts
        rw [if_pos (h hr)]
        exact ih h hts
      · rw [if_neg hr] at hts
        cases hts
    | free r => exact ih (List.cons_subset_cons r h) hts

theorem notMem_of_firstUnbound {r : Int} (hts : firstUnbound live ts = some r) : r ∉ live := by
  induction ts generalizing live with
  | nil => cases hts
  | cons t ts ih =>
    cases t with
    | constant v => exact ih hts
    | reference r' =>
      rw [firstUnbound] at hts
      split at hts
      · exact ih hts
      · next hr => exact Option.some_inj.1 hts ▸ hr
    | free r' => exact fun hr => ih hts (List.mem_cons_of_mem r' hr)

theorem firstUnbound_constants (vs : List Value) :
    firstUnbound live (vs.map Term.constant) = none := by
  induction vs with
  | nil => rfl
  | cons v vs ih => exact ih

/-! ## Nodes of grafts -/

namespace Node

theorem Built.terms (h : n.Built known A) :
    ∃ vs : List Value, n.pattern.terms = vs.map Term.constant := by
  obtain ⟨-, ⟨a, b, rfl⟩ | ⟨f, -, rfl | ⟨a, rfl⟩⟩⟩ := h
  · exact ⟨[], rfl⟩
  · exact ⟨f.values, rfl⟩
  · exact ⟨f.values, rfl⟩

theorem shapeFault?_asPattern (h : ∀ r, registry = some r → r.has f.predicate)
    (hn : n.pattern = f.asPattern) : n.shapeFault? registry = none := by
  have hfree : (f.asPattern.terms.any fun t => t.written?.isSome) = false := by
    simp [Fact.asPattern, Term.written?]
  have hlength : (f.asPattern.terms.length : Int) = f.predicate.arity := by
    simpa [Fact.asPattern] using f.length_values
  have hhas : (registry.any fun r => !r.has f.predicate) = false := by
    cases registry with
    | none => rfl
    | some r => simp [h r rfl]
  have hpredicate : f.asPattern.predicate = some f.predicate := rfl
  simp [shapeFault?, hn, hpredicate, hlength, hhas, hfree]

/-- Nodes of grafts have no fault where their facts are registered and their edges lead to indices
in range. -/
theorem Built.fault?_eq_none {size : Nat}
    (h : n.Built (fun f => ∀ r, registry = some r → r.has f.predicate) A)
    (hA : ∀ t, A t → inRange size t) : n.fault? registry size = none := by
  refine fault?_eq_none_iff.2 ⟨fun t ht => hA t (h.1 t ht), fun t ht => ?_, ?_⟩
  · obtain ⟨vs, hvs⟩ := h.terms
    rw [hvs] at ht
    obtain ⟨v, -, rfl⟩ := List.mem_map.1 ht
    rfl
  · obtain ⟨-, ⟨a, b, rfl⟩ | ⟨f, hf, rfl | ⟨a, rfl⟩⟩⟩ := h
    · rfl
    · exact shapeFault?_asPattern hf rfl
    · exact shapeFault?_asPattern hf rfl

end Node

/-! ## The grafted diagram -/

namespace Diagram

/-- The registers required at an index of the grown diagram: at an old index those of its entry, and
none at a new one. Nothing leads to a negative index, and so all may be required there. -/
def required (d : Diagram) (T : BoundTable) (i : Int) : Set Int :=
  {r | i < d.size ∧ (0 ≤ i → ∀ entry, T.lookup i = some entry → r ∈ entry)}

theorem required_subset_of_admits (h : T.Admits i live) (hi : 0 ≤ i) :
    d.required T i ⊆ {r | r ∈ live} := by
  rintro r ⟨-, hr⟩
  obtain ⟨entry, hentry, hsub⟩ := h
  exact hsub (hr hi entry hentry)

/-- The indices that the edges of a graft may lead to: the old root, and the new indices. -/
def Entrance (d : Diagram) (count : Nat) (t : Int) : Prop :=
  t = d.root ∨ d.size ≤ t ∧ t < d.size + count

theorem inRange_of_entrance (hroot : inRange d.size d.root) (h : d.Entrance ns.length i) :
    inRange (d.append ns).size i := by
  obtain rfl | ⟨hle, hlt⟩ := h
  · exact inRange_append hroot
  · rw [inRange_iff, size_append]
    omega

theorem required_entrance {count : Nat} (hroot : inRange d.size d.root) (hT : d.PostFixpoint T)
    (h : d.Entrance count i) : d.required T i = ∅ := by
  rw [Set.eq_empty_iff_forall_notMem]
  rintro r hr
  obtain rfl | ⟨hle, -⟩ := h
  · exact List.not_mem_nil (required_subset_of_admits hT.root (inRange_iff.1 hroot).1 hr)
  · have hlt := hr.1
    omega

/-- An index of the grown diagram is negative, or that of an old node, or that of a new one. -/
theorem node?_append_cases (hn : (d.append ns).node? i = some n) :
    i < 0 ∨ inRange d.size i ∧ d.node? i = some n ∨ d.size ≤ i ∧ n ∈ ns := by
  by_cases hneg : i < 0
  · exact .inl hneg
  · refine .inr ?_
    by_cases hlt : i < d.size
    · have hi : inRange d.size i := inRange_iff.2 ⟨by omega, hlt⟩
      exact .inl ⟨hi, (node?_append_of_inRange hi).symm.trans hn⟩
    · obtain ⟨k, hk⟩ := Int.eq_ofNat_of_zero_le (a := i - d.size) (by omega)
      obtain rfl : i = d.size + (k : Nat) := by omega
      rw [node?_append_size_add] at hn
      exact .inr ⟨by omega, List.mem_of_getElem? hn⟩

/-- **The edges of a grafted diagram respect what is required.** -/
theorem respects_required (hd : d.InRange) (hT : d.PostFixpoint T)
    (hns : ∀ n ∈ ns, n.Built known (d.Entrance ns.length)) (hroot : d.Entrance ns.length root) :
    ((d.append ns).withRoot root).Respects (d.required T) := by
  have hnew {n : Node} {t r : Int} (hn : n ∈ ns) (ht : t ∈ n.targets) : r ∉ d.required T t := by
    rw [required_entrance hd.root hT ((hns n hn).1 t ht)]
    exact Set.notMem_empty r
  refine
    { root := required_entrance hd.root hT hroot
      onMatch := fun i p t f hn r hr => ?_
      onRefute := fun i p m t hn r hr => ?_ }
  · have ht : t ∈ (Node.branch p (some t) f).targets := Node.mem_targets_branch.2 (.inl rfl)
    obtain hneg | ⟨hi, hold⟩ | ⟨-, hmem⟩ := node?_append_cases hn
    · exact .inl ⟨by omega, fun hnonneg => absurd hneg (by omega)⟩
    · -- An old branch: the table of the old diagram admits what arrives at the match child.
      refine or_iff_not_imp_left.2 fun hr' => ?_
      obtain ⟨entry, hentry, hr'⟩ : ∃ entry, T.lookup i = some entry ∧ r ∉ entry := by
        simpa [required, (inRange_iff.1 hi).1, (inRange_iff.1 hi).2] using hr'
      have hadmits := (hT.follows i entry p (some t) f hentry hold).1 t rfl
      have hmem := required_subset_of_admits hadmits (inRange_iff.1 (hd.follow hold ht)).1 hr
      exact (List.mem_append.1 hmem).resolve_left hr'
    · exact absurd hr (hnew hmem ht)
  · have ht : t ∈ (Node.branch p m (some t)).targets := Node.mem_targets_branch.2 (.inr rfl)
    obtain hneg | ⟨hi, hold⟩ | ⟨-, hmem⟩ := node?_append_cases hn
    · exact ⟨by omega, fun hnonneg => absurd hneg (by omega)⟩
    · refine ⟨(inRange_iff.1 hi).2, fun _ entry hentry => ?_⟩
      have hadmits := (hT.follows i entry p m (some t) hentry hold).2 t rfl
      exact required_subset_of_admits hadmits (inRange_iff.1 (hd.follow hold ht)).1 hr
    · exact absurd hr (hnew hmem ht)

/-- No reference of the grafted diagram reads a register that is not bound. -/
theorem referenceFault?_grafted_eq_none {T' : BoundTable} (hd : d.WellFormed)
    (hns : ∀ n ∈ ns, n.Built known (d.Entrance ns.length)) (hroot : d.Entrance ns.length root)
    (hT' : ((d.append ns).withRoot root).bound = .ok T') :
    ((d.append ns).withRoot root).referenceFault? T' = none := by
  obtain ⟨T, -, hT, hfirst⟩ := hd.bound
  have hrespects := respects_required hd.allInRange hT hns hroot
  refine List.findSome?_eq_none_iff.2 fun ⟨i, entry⟩ hi => ?_
  have hbound {r : Int} (hr : r ∈ d.required T i) : r ∈ entry := hrespects.mem_of_bound hT' hi hr
  refine Option.bind_eq_none_iff.2 fun n hn => ?_
  suffices h : firstUnbound entry n.pattern.terms = none by
    rw [h]
    rfl
  obtain hneg | ⟨hi, hold⟩ | ⟨-, hmem⟩ := node?_append_cases hn
  · -- All registers would be required at a negative index.
    refine Option.eq_none_iff_forall_ne_some.2 fun r hr => notMem_of_firstUnbound hr (hbound ?_)
    exact ⟨by omega, fun hnonneg => absurd hneg (by omega)⟩
  · obtain ⟨hnonneg, hlt⟩ := inRange_iff.1 hi
    cases hentry : T.lookup i with
    | none =>
      -- All registers are required at an index that the old analysis never came to.
      refine Option.eq_none_iff_forall_ne_some.2 fun r hr =>
        notMem_of_firstUnbound hr (hbound ⟨hlt, fun _ e he => ?_⟩)
      rw [hentry] at he
      cases he
    | some old =>
      -- What was bound there before is bound now.
      refine firstUnbound_mono (fun r hr => hbound ⟨hlt, fun _ e he => ?_⟩)
        (hfirst i old n hentry hold)
      rw [hentry] at he
      exact Option.some_inj.1 he ▸ hr
  · obtain ⟨vs, hvs⟩ := (hns n hmem).terms
    rw [hvs]
    exact firstUnbound_constants vs

/-- **A grafted diagram is as well formed as before**, if the facts of the graft are registered. -/
theorem fault?_grafted_eq_none (hd : d.fault? registry = none)
    (hns : ∀ n ∈ ns, n.Built (fun f => ∀ r, registry = some r → r.has f.predicate)
      (d.Entrance ns.length))
    (hroot : d.Entrance ns.length root) : ((d.append ns).withRoot root).fault? registry = none := by
  have hwell := wellFormed_of_fault?_eq_none hd
  obtain ⟨hnil, -, hnodes, -⟩ := fault?_eq_none_iff.1 hd
  refine fault?_eq_none_iff.2 ⟨fun h => hnil (List.append_eq_nil_iff.1 h).1,
    inRange_of_entrance hwell.root hroot, fun n hn => ?_,
    fun T' hT' => referenceFault?_grafted_eq_none hwell hns hroot hT'⟩
  rcases List.mem_append.1 hn with hn | hn
  · obtain ⟨htargets, hrest⟩ := Node.fault?_eq_none_iff.1 (hnodes n hn)
    exact Node.fault?_eq_none_iff.2 ⟨fun t ht => inRange_append (htargets t ht), hrest⟩
  · exact (hns n hn).fault?_eq_none fun t ht => inRange_of_entrance hwell.root ht

end Diagram

end RuleDiagram
