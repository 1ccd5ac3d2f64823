import RuleDiagram.Proofs.Mutation.Revalidation

/-!
# Restructurings that are taken back

What splicing does, collapsing takes back, and what duplicating does, merging takes back: the very
diagram comes back, with all its indices. The appended node comes last, so that its removal lowers
no index, and the edge that leads to it is the only one of another node that does.

## Main results

* `Diagram.withEdge_back`, `Diagram.removeNode_append`: edits that are taken back
* `Mutation.collapsePassThrough_spliceEdge`: splicing and collapsing is the identity
* `Mutation.mergeNodes_duplicateNode`: duplicating and merging is the identity
-/

namespace RuleDiagram

variable {d d' : Diagram} {registry : Option Registry} {evaluations given : List Evaluation}
  {n n' x : Node} {e : Edge} {a b source target : Option Int} {p : Pattern} {place : Nat}
  {child : Int} {links : List (Option Int × Edge)}

/-! ## Edits that are taken back -/

theorem Node.withChild_self (h : (e, a) ∈ n.children) : n.withChild e a = .ok n := by
  cases n with
  | leaf p => cases h
  | branch p m r =>
    rcases mem_children_branch.1 h with ⟨rfl, rfl⟩ | ⟨rfl, rfl⟩ <;> rfl

theorem Node.mapTargets_eq_self {f : Int → Int} (h : ∀ t ∈ n.targets, f t = t) :
    n.mapTargets f = n := by
  cases n with
  | leaf p => rfl
  | branch p m r =>
    have hm : m.map f = m := by
      cases m with
      | none => rfl
      | some t => exact congrArg some (h t (mem_targets_branch.2 (.inl rfl)))
    have hr : r.map f = r := by
      cases r with
      | none => rfl
      | some t => exact congrArg some (h t (mem_targets_branch.2 (.inr rfl)))
    rw [mapTargets, hm, hr]

namespace Diagram

theorem setNode_of_getElem? (hn : d.nodes[place]? = some n) : d.setNode place n = d := by
  obtain ⟨hlt, rfl⟩ := List.getElem?_eq_some_iff.1 hn
  rw [setNode, List.set_getElem_self]

/-- An edge led to where it leads. -/
theorem withEdge_self (hedge : (source, e, a) ∈ d.edges) : d.withEdge source e a = .ok d := by
  obtain ⟨rfl, rfl, rfl⟩ | ⟨place, n, rfl, hn, he⟩ := mem_edges.1 hedge
  · rfl
  · exact (withEdge_eq_ok_iff (ne_root_of_mem_children he)).2
      ⟨n, n, hn, Node.withChild_self he, (setNode_of_getElem? hn).symm⟩

/-- **An edge led elsewhere and back.** -/
theorem withEdge_back (hedge : (source, e, a) ∈ d.edges) (h : d.withEdge source e b = .ok d') :
    d'.withEdge source e a = .ok d := by
  obtain ⟨rfl, rfl, rfl, r, -, rfl⟩ | ⟨place, n, n', rfl, hn, he, hn', rfl⟩ :=
    withEdge_cases hedge h
  · rfl
  · obtain ⟨hlt, -⟩ := List.getElem?_eq_some_iff.1 hn
    obtain ⟨hback, -⟩ := Node.withChild_comm hn' (Node.child_eq_ok_iff.2 he)
    refine (withEdge_eq_ok_iff (ne_root_of_mem_children he)).2
      ⟨n', n, List.getElem?_set_self hlt, hback, ?_⟩
    rw [setNode, setNode, List.set_set]
    exact (setNode_of_getElem? hn).symm

/-- An edge led to where it leads, however often. -/
theorem foldlM_withEdge_self (hedge : (source, e, a) ∈ d.edges)
    (hlinks : ∀ link ∈ links, link = (source, e)) :
    links.foldlM (fun d (source, e) => d.withEdge source e a) d = .ok d := by
  induction links with
  | nil => rfl
  | cons link links ih =>
    obtain ⟨rfl, hrest⟩ := List.forall_mem_cons.1 hlinks
    rw [List.foldlM_cons]
    exact Except.bind_eq_ok_iff.2 ⟨d, withEdge_self hedge, ih hrest⟩

/-- One edge led elsewhere, however often. -/
theorem foldlM_withEdge_eq (hedge : (source, e, a) ∈ d.edges)
    (h : d.withEdge source e b = .ok d') (hne : links ≠ [])
    (hlinks : ∀ link ∈ links, link = (source, e)) :
    links.foldlM (fun d (source, e) => d.withEdge source e b) d = .ok d' := by
  cases links with
  | nil => exact absurd rfl hne
  | cons link links =>
    obtain ⟨rfl, hrest⟩ := List.forall_mem_cons.1 hlinks
    have hedge' : (source, e, b) ∈ d'.edges :=
      (mem_edges_withEdge hedge h).2 (by rw [if_pos ⟨rfl, rfl⟩])
    rw [List.foldlM_cons]
    exact Except.bind_eq_ok_iff.2 ⟨d', h, foldlM_withEdge_self hedge' hrest⟩

/-- **An appended node that only its own edges lead to is removed without a trace.** -/
theorem removeNode_append (hd : d.InRange) : (d.append [n]).removeNode d.size = .ok d := by
  refine removeNode_eq_ok_iff.2 ⟨(inRange_iff.1 hd.root).2.ne, fun source e hedge => ?_, ?_⟩
  · obtain hedge | ⟨rfl, -⟩ := mem_edges_append_singleton.1 hedge
    · exact absurd rfl (hd.target_ne_size hedge)
    · rfl
  · have hnodes : (d.append [n]).nodes.eraseIdx d.size = d.nodes := by
      show (d.nodes ++ [n]).eraseIdx d.nodes.length = d.nodes
      rw [List.eraseIdx_append_of_length_le le_rfl, Nat.sub_self, List.eraseIdx_cons_zero,
        List.append_nil]
    have hkept : d.nodes.map (Node.mapTargets (shiftIndex d.size)) = d.nodes := by
      refine (List.map_congr_left fun m hm => ?_).trans (List.map_id d.nodes)
      exact Node.mapTargets_eq_self fun t ht =>
        shiftIndex_of_inRange (hd.targets m hm t ht)
    rw [hnodes, hkept]
    exact congrArg (Diagram.mk d.nodes) (shiftIndex_of_inRange hd.root).symm

/-- **An edge can be led to an appended node and back.** -/
theorem exists_lead_to_appended (hedge : (source, e, a) ∈ d.edges) :
    ∃ d', (d.append [n]).withEdge source e (some (d.size : Int)) = .ok d' ∧
      d'.size = d.size + 1 ∧ d'.nodes[d.size]? = some n ∧
      d'.withEdge source e a = .ok (d.append [n]) := by
  have hgrown : (source, e, a) ∈ (d.append [n]).edges := mem_edges_append_singleton.2 (.inl hedge)
  have hlast : (d.append [n]).nodes[d.size]? = some n :=
    getElem?_append_singleton.2 (.inr ⟨rfl, rfl⟩)
  obtain ⟨d', hd'⟩ := exists_withEdge hgrown fun _ => Option.some_ne_none (d.size : Int)
  refine ⟨d', hd', (size_withEdge hgrown hd').trans size_append, ?_, withEdge_back hgrown hd'⟩
  rw [← node?_natCast, node?_withEdge_of_ne hgrown hd' (inRange_of_getElem? hlast)
    (Mutation.source_ne_size hedge), node?_natCast]
  exact hlast

/-- No edge but this one leads there then, but for those of the node itself. -/
theorem mem_edges_lead_to_appended (hd : d.InRange) (hedge : (source, e, a) ∈ d.edges)
    (h : (d.append [n]).withEdge source e (some (d.size : Int)) = .ok d') {source' : Option Int}
    {e' : Edge} (hne : source' ≠ some (d.size : Int)) :
    (source', e', some (d.size : Int)) ∈ d'.edges ↔ source' = source ∧ e' = e := by
  rw [mem_edges_withEdge (mem_edges_append_singleton.2 (.inl hedge)) h]
  split
  · next hsame => exact iff_of_true rfl hsame
  · next hother =>
    refine iff_of_false (fun hmem => ?_) hother
    obtain hmem | ⟨hsource, -⟩ := mem_edges_append_singleton.1 hmem
    · exact hd.target_ne_size hmem rfl
    · exact hne hsource

/-- All edges of other nodes that lead there are led back. -/
theorem foldlM_withEdge_back (hd : d.InRange) (hedge : (source, e, a) ∈ d.edges)
    (h : (d.append [n]).withEdge source e (some (d.size : Int)) = .ok d') :
    ((d'.parents (some (d.size : Int))).filter fun (source, _) =>
        decide (source ≠ some (d.size : Int))).foldlM
      (fun d (source, e) => d.withEdge source e a) d' = .ok (d.append [n]) := by
  have hsource := Mutation.source_ne_size hedge
  have hled := (mem_edges_lead_to_appended hd hedge h hsource).2 ⟨rfl, rfl⟩
  have hback := withEdge_back (mem_edges_append_singleton.2 (.inl hedge)) h
  refine foldlM_withEdge_eq hled hback (List.ne_nil_of_mem (List.mem_filter.2
    ⟨Mutation.mem_parents.2 hled, decide_eq_true hsource⟩)) ?_
  rintro ⟨source', e'⟩ hlink
  obtain ⟨hparent, hne⟩ := List.mem_filter.1 hlink
  have hsame := (mem_edges_lead_to_appended hd hedge h (of_decide_eq_true hne)).1
    (Mutation.mem_parents.1 hparent)
  exact Prod.ext hsame.1 hsame.2

/-- Nothing leads to an appended node that no edge has been led to, but for the node itself. -/
theorem not_ledByOthers_append (hd : d.InRange) : ¬ (d.append [n]).LedByOthers d.size := by
  rintro ⟨source, e, hedge, hne⟩
  obtain hedge | ⟨hsource, -⟩ := mem_edges_append_singleton.1 hedge
  · exact hd.target_ne_size hedge rfl
  · exact hne hsource

end Diagram

namespace Mutation

/-! ## Restructurings that are taken back -/

/-- **Splicing into an edge and collapsing is the identity**: both succeed, and the very diagram
comes back. The edge may be the root edge, for which the node named is ignored, lead nowhere, or
lead back to its source. -/
theorem collapsePassThrough_spliceEdge {n : Option Int} (hd : d.validate registry = .ok d)
    (hedge : (source, e, target) ∈ d.edges) (hn : e = .root ∨ n = source) :
    ∃ d', (spliceEdge n e).apply registry d evaluations = .ok d' ∧ d'.size = d.size + 1 ∧
      d'.nodes[d.size]? = some (.branch .passThrough target target) ∧
      (collapsePassThrough (some (d.size : Int))).apply registry d' given = .ok d := by
  have hfault := (Diagram.validate_eq_ok_iff.1 hd).1
  have hrange := (Diagram.wellFormed_of_fault?_eq_none hfault).allInRange
  obtain ⟨d', hd', hsize, hlast, -⟩ := Diagram.exists_lead_to_appended
    (n := .branch .passThrough target target) hedge
  have hsplice : (spliceEdge n e).edit d evaluations = .ok d' :=
    edit_spliceEdge_eq_ok_iff.2 ⟨source, target, hn, hedge, hd'⟩
  -- The root edge always leads somewhere, so it has not been led to the branch from nowhere.
  have hroot : ¬ (target = none ∧ d'.root = d.size) := by
    rintro ⟨rfl, hroot⟩
    have hmem : (none, Edge.root, some (d.size : Int)) ∈ d'.edges :=
      Diagram.mem_edges.2 (.inl ⟨rfl, rfl, congrArg some hroot.symm⟩)
    have hnowhere : (none : Option Int) ≠ some (d.size : Int) := (Option.some_ne_none _).symm
    obtain ⟨rfl, rfl⟩ := (Diagram.mem_edges_lead_to_appended hrange hedge hd' hnowhere).1 hmem
    obtain ⟨-, -, ⟨⟩⟩ | ⟨_, _, ⟨⟩, -⟩ := Diagram.mem_edges.1 hedge
  have hfold := Diagram.foldlM_withEdge_back hrange hedge hd'
  refine ⟨d', (apply_eq_edit hfault rfl).trans hsplice, hsize, hlast, ?_⟩
  rw [apply_eq_edit (fault?_eq_none_of_edit hfault rfl hsplice) rfl]
  exact edit_collapsePassThrough_eq_ok_iff.2 ⟨d.size, _, target, _, rfl, hlast, rfl,
    hrange.target_ne_size hedge, hroot, hfold, Diagram.removeNode_append hrange⟩

/-- **Duplicating a shared child and merging is the identity**: both succeed, and the very diagram
comes back. The child may be the root, lead to itself or back to its parent, and be led to by other
nodes. -/
theorem mergeNodes_duplicateNode (hd : d.validate registry = .ok d)
    (hn : d.nodes[place]? = some (.branch p (some child) (some child))) (hne : child ≠ place) :
    ∃ d', (duplicateNode (some (place : Int))).apply registry d evaluations = .ok d' ∧
      d'.size = d.size + 1 ∧
      d'.nodes[place]? = some (.branch p (some child) (some (d.size : Int))) ∧
      (mergeNodes (some (place : Int))).apply registry d' given = .ok d := by
  have hfault := (Diagram.validate_eq_ok_iff.1 hd).1
  have hrange := (Diagram.wellFormed_of_fault?_eq_none hfault).allInRange
  have hedge := Diagram.mem_edges_onRefute hn
  obtain ⟨x, hx⟩ := Diagram.exists_node?_of_inRange (hrange.mem_edges hedge)
  obtain ⟨d', hd', hsize, hlast, hback⟩ := Diagram.exists_lead_to_appended (n := x) hedge
  have hduplicate : (duplicateNode (some (place : Int))).edit d evaluations = .ok d' :=
    edit_duplicateNode_eq_ok_iff.2 ⟨place, p, child, x, rfl, hn, hne, hx, hd'⟩
  have hparent : d'.nodes[place]? = some (.branch p (some child) (some (d.size : Int))) := by
    have hgrown : (d.append [x]).nodes[place]? = some (.branch p (some child) (some child)) :=
      Diagram.getElem?_append_singleton.2 (.inl hn)
    obtain ⟨m, m', hm, hm', rfl⟩ := (Diagram.withEdge_eq_ok_iff Edge.noConfusion).1 hd'
    obtain rfl := Option.some_inj.1 (hgrown.symm.trans hm)
    cases hm'
    exact List.getElem?_set_self (List.getElem?_eq_some_iff.1 hgrown).1
  have hchild : d'.node? child = some x := by
    rw [Diagram.node?_withEdge_of_ne (mem_edges_append hedge) hd'
      (Diagram.inRange_append (hrange.mem_edges hedge)) fun hs => hne (Option.some_inj.1 hs).symm,
      Diagram.node?_append_of_inRange (hrange.mem_edges hedge), hx]
  have hdiffer : child ≠ (d.size : Int) := (inRange_iff.1 (hrange.mem_edges hedge)).2.ne
  refine ⟨d', (apply_eq_edit hfault rfl).trans hduplicate, hsize, hparent, ?_⟩
  rw [apply_eq_edit (fault?_eq_none_of_edit hfault rfl hduplicate) rfl]
  refine edit_mergeNodes_eq_ok_iff.2 ⟨place, p, child, d.size, x, x, d.append [x], rfl, hparent,
    hdiffer, ?_, hchild, (Diagram.node?_natCast _).trans hlast, Same.refl x, hback,
    .inr ⟨Diagram.not_ledByOthers_append hrange, Diagram.removeNode_append hrange⟩⟩
  exact (inRange_iff.1 (Diagram.inRange_of_getElem? hn)).2.ne'

end Mutation

/-- Into the edge to the root, an edge that leads nowhere and the edge that closes the circle a
branch is spliced and taken out again. -/
theorem Reachability.collapse_splice_diagram :
    (∃ d', (Mutation.spliceEdge (some 7) .root).apply none diagram [] = .ok d' ∧ d'.size = 6 ∧
      d'.nodes[5]? = some (.branch .passThrough (some 0) (some 0)) ∧
      (Mutation.collapsePassThrough (some 5)).apply none d' [] = .ok diagram) ∧
    (∃ d', (Mutation.spliceEdge (some 1) .onRefute).apply none diagram [] = .ok d' ∧ d'.size = 6 ∧
      d'.nodes[5]? = some (.branch .passThrough none none) ∧
      (Mutation.collapsePassThrough (some 5)).apply none d' [] = .ok diagram) ∧
    ∃ d', (Mutation.spliceEdge (some 4) .onMatch).apply none diagram [] = .ok d' ∧ d'.size = 6 ∧
      d'.nodes[5]? = some (.branch .passThrough (some 2) (some 2)) ∧
      (Mutation.collapsePassThrough (some 5)).apply none d' [] = .ok diagram := by
  have hvalid : diagram.validate none = .ok diagram := rfl
  have hroot : (none, .root, some 0) ∈ diagram.edges := by decide
  have hnowhere : (some 1, .onRefute, none) ∈ diagram.edges := by decide
  have hback : (some 4, .onMatch, some 2) ∈ diagram.edges := by decide
  exact ⟨Mutation.collapsePassThrough_spliceEdge hvalid hroot (.inl rfl),
    Mutation.collapsePassThrough_spliceEdge hvalid hnowhere (.inr rfl),
    Mutation.collapsePassThrough_spliceEdge hvalid hback (.inr rfl)⟩

namespace Roundabout

def edge : Predicate := ⟨"edge", 2⟩

/-- The root leads to itself, and to a branch that leads back to it both ways. -/
def diagram : Diagram :=
  ⟨[.branch ⟨some edge, [.free 0, .free 1]⟩ (some 1) (some 0),
    .branch .passThrough (some 0) (some 0)], 0⟩

/-- The root is duplicated for the branch that leads back to it, and merged with its copy. -/
theorem merge_duplicate_diagram : diagram.validate none = .ok diagram ∧
    ∃ d', (Mutation.duplicateNode (some 1)).apply none diagram [] = .ok d' ∧ d'.size = 3 ∧
      d'.nodes[1]? = some (.branch .passThrough (some 0) (some 2)) ∧
      (Mutation.mergeNodes (some 1)).apply none d' [] = .ok diagram := by
  have hvalid : diagram.validate none = .ok diagram := rfl
  have hbranch : diagram.nodes[1]? = some (.branch .passThrough (some 0) (some 0)) := rfl
  exact ⟨hvalid, Mutation.mergeNodes_duplicateNode hvalid hbranch (by decide)⟩

end Roundabout

end RuleDiagram
