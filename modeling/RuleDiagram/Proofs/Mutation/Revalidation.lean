import RuleDiagram.Proofs.Diagram.Secured
import RuleDiagram.Proofs.Mutation.Restructuring

/-!
# Validation of restructured diagrams

The result of a mutation is validated before it is handed out. For the mutations that restructure a
diagram this never fails: sets of registers that vouch for a diagram become sets that vouch for the
restructured one. An appended node is secured what the edge to it brings along, and its own edges
bring that along in turn; edges that lead to a pass-through branch bring along what is secured at
its target, as the branch has nothing to add; and of two children that are merged, the kept one is
secured what both were.

## Main results

* `Mutation.exists_secured_of_edit`: restructured diagrams have sets that vouch for them
* `Mutation.apply_eq_edit`: restructured diagrams need not be validated
-/

namespace RuleDiagram

variable {d d' : Diagram} {registry : Option Registry} {evaluations : List Evaluation}
  {m : Mutation} {n x y : Node} {e : Edge} {a source target : Option Int} {B : Int → Set Int}
  {p : Pattern} {place : Nat} {child kept dropped : Int}

theorem Node.valid_passThrough : (Node.branch .passThrough target target).Valid registry where
  registers r hr := by cases hr
  fits := rfl
  registered q table hq := by cases hq
  leaf h := by cases h

namespace Diagram.Secured

/-- **An edge may be led to an appended node** that reads and relies on no more than what the edge
brings along. -/
theorem lead_to_appended (h : d.Secured registry B) (hedge : (source, e, a) ∈ d.edges)
    (hn : n.Valid registry) (hrange : ∀ t ∈ n.targets, RuleDiagram.inRange d.size t)
    (hreads : ReadsWithin n.pattern.terms (d.boundAlong B source e))
    (hedges : ∀ e' t, (e', some t) ∈ n.children →
      ∀ r ∈ B t, r ∈ d.boundAlong B source e ∨ e' = .onMatch ∧ .free r ∈ n.pattern.terms)
    (hedit : (d.append [n]).withEdge source e (some (d.size : Int)) = .ok d') :
    ∃ B', d'.Secured registry B' := by
  refine ⟨_, (h.append hn hrange hreads hedges).withEdge
    (mem_edges_append_singleton.2 (.inl hedge)) hedit ?_⟩
  rintro t ⟨⟩
  refine ⟨inRange_of_getElem? (getElem?_append_singleton.2 (.inr ⟨rfl, rfl⟩)), ?_⟩
  rw [Function.update_self]
  exact boundAlong_subset_append

/-- A pass-through branch may be put into an edge. -/
theorem splice (h : d.Secured registry B) (hedge : (source, e, target) ∈ d.edges)
    (hedit : (d.append [.branch .passThrough target target]).withEdge source e
      (some (d.size : Int)) = .ok d') : ∃ B', d'.Secured registry B' := by
  refine h.lead_to_appended hedge Node.valid_passThrough (fun t ht => ?_) readsWithin_nil
    (fun e' t ht r hr => ?_) hedit
  · obtain rfl : target = some t := (Node.mem_targets_branch.1 ht).elim id id
    exact h.mem_edges hedge
  · obtain rfl : some t = target := (Node.mem_children_branch.1 ht).elim And.right And.right
    exact .inl (h.edges source e t hedge hr)

/-- An edge may be led to a copy of its target. -/
theorem duplicate (h : d.Secured registry B) (hedge : (source, e, some child) ∈ d.edges)
    (hx : d.node? child = some x)
    (hedit : (d.append [x]).withEdge source e (some (d.size : Int)) = .ok d') :
    ∃ B', d'.Secured registry B' := by
  obtain ⟨k, rfl, hk⟩ := exists_place_of_node? (h.mem_edges hedge) hx
  have hbrought := h.edges source e k hedge
  refine h.lead_to_appended hedge (h.valid x (List.mem_of_getElem? hk))
    (fun t ht => h.follow hx ht) ((h.reads k x hk).mono hbrought) (fun e' t ht r hr => ?_) hedit
  have hr' := h.edges _ e' t ((mem_edges_of_node hk).2 ht) hr
  rw [boundAlong_of_node hk] at hr'
  exact hr'.imp_left fun hrB => hbrought hrB

/-- Edges that lead to a branch may be led to the target of its refute edge: on that edge nothing is
written. -/
theorem skip (h : d.Secured registry B) (hn : d.nodes[place]? = some (.branch p a target))
    {links : List (Option Int × Edge)}
    (hlinks : ∀ link ∈ links, (link.1, link.2, some (place : Int)) ∈ d.edges)
    (hedit : links.foldlM (fun d (source, e) => d.withEdge source e target) d = .ok d') :
    d'.Secured registry B := by
  refine h.redirected (fun link hlink => ⟨_, hlinks link hlink⟩) ?_ hedit
  rintro t rfl
  have hrefute := mem_edges_onRefute hn
  refine ⟨h.mem_edges hrefute, fun link hlink r hr => h.edges _ _ _ (hlinks link hlink) ?_⟩
  have hr' := h.edges _ _ t hrefute hr
  rw [boundAlong_of_node hn] at hr'
  exact hr'.resolve_right fun hwritten => nomatch hwritten.1

/-- The refute edge of a branch may be led to its match child, if that is the same as its refute
child. -/
theorem merge (h : d.Secured registry B)
    (hn : d.nodes[place]? = some (.branch p (some kept) (some dropped))) (hne : kept ≠ dropped)
    (hx : d.node? kept = some x) (hy : d.node? dropped = some y) (hxy : Same x y)
    (hedit : d.withEdge (some (place : Int)) .onRefute (some kept) = .ok d') :
    ∃ B', d'.Secured registry B' := by
  have hmatch := mem_edges_onMatch hn
  have hrefute := mem_edges_onRefute hn
  obtain ⟨k, rfl, hk⟩ := exists_place_of_node? (h.mem_edges hmatch) hx
  obtain ⟨l, rfl, hl⟩ := exists_place_of_node? (h.mem_edges hrefute) hy
  have hmeet := h.meet hk hl hxy
  refine ⟨_, hmeet.withEdge hrefute hedit ?_⟩
  rintro t ⟨⟩
  refine ⟨h.mem_edges hmatch, ?_⟩
  -- What is now secured at the kept child was secured at the dropped one, and still is.
  refine Set.Subset.trans ?_ (hmeet.edges _ _ _ hrefute)
  rw [Function.update_self, Function.update_of_ne hne.symm]
  exact Set.inter_subset_right

end Diagram.Secured

namespace Mutation

/-- **Restructured diagrams have sets that vouch for them.** -/
theorem exists_secured_of_edit (h : d.Secured registry B) (hm : m.effect = .sizeChanging)
    (hedit : m.edit d evaluations = .ok d') : ∃ B', d'.Secured registry B' := by
  cases m with
  | spliceEdge n e =>
    obtain ⟨source, target, -, hedge, hedit⟩ := edit_spliceEdge_eq_ok_iff.1 hedit
    exact h.splice hedge hedit
  | collapsePassThrough n =>
    obtain ⟨place, p, target, result, -, hn, -, -, -, hresult, hedit⟩ :=
      edit_collapsePassThrough_eq_ok_iff.1 hedit
    have hsecured := h.skip hn
      (fun link hlink => mem_parents.1 (List.mem_of_mem_filter hlink)) hresult
    exact ⟨_, hsecured.removeNode hedit⟩
  | duplicateNode n =>
    obtain ⟨place, p, child, x, -, hn, -, hx, hedit⟩ := edit_duplicateNode_eq_ok_iff.1 hedit
    exact h.duplicate (Diagram.mem_edges_onRefute hn) hx hedit
  | mergeNodes n =>
    obtain ⟨place, p, kept, dropped, x, y, result, -, hn, hne, -, hx, hy, hxy, hresult, hedit⟩ :=
      edit_mergeNodes_eq_ok_iff.1 hedit
    obtain ⟨B', hsecured⟩ := h.merge hn hne hx hy hxy hresult
    rcases hedit with ⟨-, rfl⟩ | ⟨-, hedit⟩
    · exact ⟨B', hsecured⟩
    · have hdropped := h.mem_edges (Diagram.mem_edges_onRefute hn)
      obtain ⟨l, rfl⟩ := Int.eq_ofNat_of_zero_le (inRange_iff.1 hdropped).1
      exact ⟨_, hsecured.removeNode hedit⟩
  | _ => cases hm

/-- Restructured diagrams are valid. -/
theorem fault?_eq_none_of_edit (hd : d.fault? registry = none) (hm : m.effect = .sizeChanging)
    (hedit : m.edit d evaluations = .ok d') : d'.fault? registry = none := by
  rw [Diagram.fault?_eq_none_iff_valid, Diagram.valid_iff_exists_secured] at hd ⊢
  obtain ⟨B, h⟩ := hd
  exact exists_secured_of_edit h hm hedit

/-- **Restructured diagrams need not be validated**: the mutation fails only if its edit does. -/
theorem apply_eq_edit (hd : d.fault? registry = none) (hm : m.effect = .sizeChanging) :
    m.apply registry d evaluations = m.edit d evaluations := by
  have hneutral : decide (m.effect = .neutral) = false := by rw [hm]; rfl
  cases hedit : m.edit d evaluations with
  | error f => simp [apply, hneutral, rejectIf, hedit, bind, Except.bind]
  | ok d' =>
    refine apply_eq_ok_iff.2 ⟨fun h => ?_, hedit, fault?_eq_none_of_edit hd hm hedit⟩
    rw [hm] at h
    cases h

end Mutation

end RuleDiagram
