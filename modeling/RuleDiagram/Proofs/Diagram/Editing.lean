import Mathlib.Data.List.Basic
import RuleDiagram.Proofs.Diagram.WellFormed
import RuleDiagram.Proofs.Outcome

/-!
# Edited diagrams

What the edits of a diagram make of its nodes: appended nodes come after those that are there, an
edge with another target changes one child of one branch, and the removal of a node lowers the
indices above it, in the nodes that stay and in their targets.

## Main definitions

* `Diagram.InRange`: the root and all edges lead to nodes
* `Diagram.LedByOthers`: a node that other nodes' edges or the root edge lead to

## Main results

* `Diagram.node?_append_of_inRange`, `Diagram.node?_append_size_add`: nodes after an append
* `Diagram.withEdge_eq_ok_iff`: an edge with another target
* `Diagram.mem_edges_redirected`, `Diagram.exists_redirected`: edges led elsewhere one after another
* `Diagram.removeNode_eq_ok_iff`, `Diagram.exists_removeNode`, `Diagram.node?_removed`,
  `Diagram.exists_edge_of_removed`: the removal of a node
-/

namespace RuleDiagram

namespace Node

variable {n n' : Node} {e e' : Edge} {a b c : Option Int} {p : Pattern}

theorem child_eq_ok_iff : n.child e = .ok a ↔ (e, a) ∈ n.children := by
  cases n <;> cases e <;> simp [child, children, eq_comm]

/-- A child is exchanged by another one at the same edge of a branch. -/
theorem withChild_eq_ok_iff : n.withChild e b = .ok n' ↔ ∃ p m r, n = branch p m r ∧
    (e = .onMatch ∧ n' = branch p b r ∨ e = .onRefute ∧ n' = branch p m b) := by
  cases n <;> cases e <;> simp [withChild, eq_comm]

/-- The children after an exchange: the new one at its edge, the old ones at the others. -/
theorem mem_children_withChild (h : n.withChild e b = .ok n') :
    (e', c) ∈ n'.children ↔ if e' = e then c = b else (e', c) ∈ n.children := by
  obtain ⟨p, m, r, rfl, ⟨rfl, rfl⟩ | ⟨rfl, rfl⟩⟩ := withChild_eq_ok_iff.1 h <;>
    cases e' <;> simp [children]

/-- An exchange can be taken back. -/
theorem withChild_comm (h : n.withChild e b = .ok n') (ha : n.child e = .ok a) :
    n'.withChild e a = .ok n ∧ n'.child e = .ok b := by
  obtain ⟨p, m, r, rfl, ⟨rfl, rfl⟩ | ⟨rfl, rfl⟩⟩ := withChild_eq_ok_iff.1 h <;> cases ha <;>
    exact ⟨rfl, rfl⟩

theorem mem_children_mapTargets {f : Int → Int} : (e, b) ∈ (n.mapTargets f).children ↔
    ∃ a, (e, a) ∈ n.children ∧ a.map f = b := by
  cases n with
  | leaf p => simp [mapTargets, children]
  | branch p m r => cases e <;> simp [mapTargets, children, eq_comm]

theorem mem_targets_mapTargets {f : Int → Int} {t : Int} :
    t ∈ (n.mapTargets f).targets ↔ ∃ t' ∈ n.targets, f t' = t := by
  cases n with
  | leaf p => simp [mapTargets, targets, children]
  | branch p m r => cases m <;> cases r <;> simp [mapTargets, targets, children, eq_comm]

theorem mapTargets_id : n.mapTargets id = n := by
  cases n <;> simp [mapTargets]

end Node

namespace Diagram

variable {d d' : Diagram} {i j t : Int} {n n' : Node} {ns : List Node} {e e' : Edge}
  {a b c : Option Int} {place : Nat}

/-- The root and all edges lead to nodes. -/
structure InRange (d : Diagram) : Prop where
  root : inRange d.size d.root
  targets : ∀ n ∈ d.nodes, ∀ t ∈ n.targets, inRange d.size t

theorem WellFormed.allInRange (hd : d.WellFormed) : d.InRange := ⟨hd.root, hd.targets⟩

theorem InRange.follow (hd : d.InRange) (hn : d.node? i = some n) (ht : t ∈ n.targets) :
    RuleDiagram.inRange d.size t :=
  hd.targets n (mem_nodes_of_node? hn) t ht

theorem inRange_of_getElem? (hn : d.nodes[place]? = some n) : inRange d.size place := by
  obtain ⟨hlt, -⟩ := List.getElem?_eq_some_iff.1 hn
  exact inRange_iff.2 ⟨Int.natCast_nonneg place, Int.ofNat_lt.2 hlt⟩

/-- An index in range is the place of a node. -/
theorem exists_getElem?_of_inRange (h : inRange d.size i) :
    ∃ place : Nat, ∃ n, i = place ∧ d.nodes[place]? = some n := by
  obtain ⟨n, hn⟩ := exists_node?_of_inRange h
  obtain ⟨place, rfl⟩ := Int.eq_ofNat_of_zero_le (inRange_iff.1 h).1
  exact ⟨place, n, rfl, (node?_natCast place).symm.trans hn⟩

/-- The node of an index in range is found at its place. -/
theorem exists_place_of_node? (hi : inRange d.size i) (hn : d.node? i = some n) :
    ∃ place : Nat, i = place ∧ d.nodes[place]? = some n := by
  obtain ⟨place, m, rfl, hm⟩ := exists_getElem?_of_inRange hi
  rw [node?_natCast] at hn
  exact ⟨place, rfl, hn⟩

/-! ## Appended nodes -/

@[simp] theorem size_append : (d.append ns).size = d.size + ns.length := List.length_append

theorem inRange_append (h : inRange d.size i) : inRange (d.append ns).size i := by
  rw [inRange_iff] at h ⊢
  rw [size_append]
  omega

theorem node?_append_of_inRange (h : inRange d.size i) : (d.append ns).node? i = d.node? i := by
  obtain ⟨place, n, rfl, hn⟩ := exists_getElem?_of_inRange h
  obtain ⟨hlt, -⟩ := List.getElem?_eq_some_iff.1 hn
  rw [node?_natCast, node?_natCast]
  exact List.getElem?_append_left hlt

theorem node?_append_size_add (k : Nat) : (d.append ns).node? (d.size + k) = ns[k]? := by
  rw [← Int.natCast_add, node?_natCast]
  show (d.nodes ++ ns)[d.nodes.length + k]? = ns[k]?
  rw [List.getElem?_append_right (Nat.le_add_right _ _), Nat.add_sub_cancel_left]

theorem getElem?_append_singleton : (d.append [n]).nodes[place]? = some n' ↔
    d.nodes[place]? = some n' ∨ place = d.size ∧ n' = n := by
  show (d.nodes ++ [n])[place]? = some n' ↔ d.nodes[place]? = some n' ∨ place = d.nodes.length ∧ _
  rcases Nat.lt_trichotomy place d.nodes.length with h | rfl | h
  · rw [List.getElem?_append_left h]
    exact (or_iff_left fun hlast => h.ne hlast.1).symm
  · have hnone : d.nodes[d.nodes.length]? ≠ some n' := by
      rw [List.getElem?_eq_none le_rfl]
      exact (Option.some_ne_none n').symm
    rw [List.getElem?_concat_length, Option.some_inj, or_iff_right hnone, eq_comm]
    exact (and_iff_right rfl).symm
  · have hnone : (d.nodes ++ [n])[place]? = none :=
      List.getElem?_eq_none (by rwa [List.length_append, List.length_singleton])
    rw [hnone, List.getElem?_eq_none h.le]
    exact iff_of_false nofun fun hlast => hlast.elim nofun fun hlast => h.ne' hlast.1

theorem InRange.append (hd : d.InRange)
    (hns : ∀ n ∈ ns, ∀ t ∈ n.targets, RuleDiagram.inRange (d.append ns).size t) :
    (d.append ns).InRange where
  root := inRange_append hd.root
  targets n hn t ht := by
    rcases List.mem_append.1 hn with hn | hn
    · exact inRange_append (hd.targets n hn t ht)
    · exact hns n hn t ht

/-! ## Another target of an edge -/

/-- Another target of an edge other than the root edge: a branch with another child. -/
theorem withEdge_eq_ok_iff (he : e ≠ .root) : d.withEdge (some (place : Int)) e b = .ok d' ↔
    ∃ n n', d.nodes[place]? = some n ∧ n.withChild e b = .ok n' ∧ d' = d.setNode place n' := by
  have hwith : d.withEdge (some (place : Int)) e b = (do
      let x ← d.owner (some (place : Int))
      d.withNode x.1 (← x.2.withChild e b)) := by
    cases e <;> first | rfl | exact absurd rfl he
  rw [hwith]
  simp only [Except.bind_eq_ok_iff, Prod.exists, owner, node?_natCast]
  cases hn : d.nodes[place]? with
  | none => simp
  | some n =>
    obtain ⟨hlt, -⟩ := List.getElem?_eq_some_iff.1 hn
    have hplace : place? d.size (place : Int) = some place := by
      simp [place?, size, hlt, Int.not_lt.2 (Int.natCast_nonneg place)]
    cases n with
    | leaf p => cases e <;> simp [Node.withChild]
    | branch p m r => simp [withNode, hplace, eq_comm]

theorem withEdge_root_eq_ok_iff {source : Option Int} :
    d.withEdge source .root b = .ok d' ↔ ∃ r, b = some r ∧ d' = d.withRoot r := by
  cases b <;> simp [withEdge, eq_comm]

/-- The edges of a diagram: the one to its root, and those that leave its nodes. -/
theorem mem_edges {source : Option Int} : (source, e, a) ∈ d.edges ↔
    source = none ∧ e = .root ∧ a = some d.root ∨
      ∃ (place : Nat) (n : Node), source = some (place : Int) ∧ d.nodes[place]? = some n ∧
        (e, a) ∈ n.children := by
  simp only [edges, List.mem_cons, Prod.mk.injEq, List.mem_flatMap, List.mem_map, Prod.exists,
    List.mem_zipIdx_iff_getElem?]
  refine or_congr_right ⟨?_, ?_⟩
  · rintro ⟨n, place, hn, e', a', he, rfl, rfl, rfl⟩
    exact ⟨place, n, rfl, hn, he⟩
  · rintro ⟨place, n, rfl, hn, he⟩
    exact ⟨n, place, hn, e, a, he, rfl, rfl, rfl⟩

theorem mem_edges_of_node (hn : d.nodes[place]? = some n) :
    (some (place : Int), e, a) ∈ d.edges ↔ (e, a) ∈ n.children := by
  rw [mem_edges]
  constructor
  · rintro (⟨⟨⟩, -⟩ | ⟨other, m, hsame, hm, he⟩)
    obtain rfl : place = other := Int.ofNat_inj.1 (Option.some_inj.1 hsame)
    exact Option.some_inj.1 (hn.symm.trans hm) ▸ he
  · exact fun he => .inr ⟨place, n, rfl, hn, he⟩

/-- The edges of a diagram with one more node are its own and those of the node. -/
theorem mem_edges_append_singleton {source : Option Int} : (source, e, a) ∈ (d.append [n]).edges ↔
    (source, e, a) ∈ d.edges ∨ source = some (d.size : Int) ∧ (e, a) ∈ n.children := by
  simp only [mem_edges, getElem?_append_singleton]
  constructor
  · rintro (h | ⟨place, m, rfl, hm | ⟨rfl, rfl⟩, he⟩)
    · exact .inl (.inl h)
    · exact .inl (.inr ⟨place, m, rfl, hm, he⟩)
    · exact .inr ⟨rfl, he⟩
  · rintro ((h | ⟨place, m, rfl, hm, he⟩) | ⟨rfl, he⟩)
    · exact .inl h
    · exact .inr ⟨place, m, rfl, .inl hm, he⟩
    · exact .inr ⟨d.size, n, rfl, .inr ⟨rfl, rfl⟩, he⟩

theorem mem_edges_onMatch {p : Pattern} (hn : d.nodes[place]? = some (.branch p a b)) :
    (some (place : Int), .onMatch, a) ∈ d.edges :=
  (mem_edges_of_node hn).2 (Node.mem_children_branch.2 (.inl ⟨rfl, rfl⟩))

theorem mem_edges_onRefute {p : Pattern} (hn : d.nodes[place]? = some (.branch p a b)) :
    (some (place : Int), .onRefute, b) ∈ d.edges :=
  (mem_edges_of_node hn).2 (Node.mem_children_branch.2 (.inr ⟨rfl, rfl⟩))

/-- An edge leads to one target. -/
theorem eq_of_mem_edges {source : Option Int} (ha : (source, e, a) ∈ d.edges)
    (hb : (source, e, b) ∈ d.edges) : a = b := by
  obtain ⟨rfl, rfl, rfl⟩ | ⟨place, n, rfl, hn, he⟩ := mem_edges.1 ha
  · obtain ⟨-, -, rfl⟩ | ⟨_, _, ⟨⟩, -⟩ := mem_edges.1 hb
    rfl
  · rw [mem_edges_of_node hn, ← Node.child_eq_ok_iff] at hb
    exact Except.ok.inj ((Node.child_eq_ok_iff.2 he).symm.trans hb)

theorem ne_root_of_mem_children (h : (e, a) ∈ n.children) : e ≠ .root := by
  rintro rfl
  cases n <;> simp [Node.children] at h

/-- An edge of a diagram led elsewhere: it is the root edge, or an edge of some branch. -/
theorem withEdge_cases {source : Option Int} (hedge : (source, e, a) ∈ d.edges)
    (h : d.withEdge source e b = .ok d') :
    source = none ∧ e = .root ∧ a = some d.root ∧ (∃ r, b = some r ∧ d' = d.withRoot r) ∨
      ∃ (place : Nat) (n n' : Node), source = some (place : Int) ∧ d.nodes[place]? = some n ∧
        (e, a) ∈ n.children ∧ n.withChild e b = .ok n' ∧ d' = d.setNode place n' := by
  obtain ⟨rfl, rfl, rfl⟩ | ⟨place, n, rfl, hn, he⟩ := mem_edges.1 hedge
  · exact .inl ⟨rfl, rfl, rfl, withEdge_root_eq_ok_iff.1 h⟩
  · obtain ⟨m, n', hm, hn', rfl⟩ := (withEdge_eq_ok_iff (ne_root_of_mem_children he)).1 h
    obtain rfl := Option.some_inj.1 (hn.symm.trans hm)
    exact .inr ⟨place, n, n', rfl, hn, he, hn', rfl⟩

theorem size_setNode : (d.setNode place n).size = d.size := List.length_set

theorem size_withEdge {source : Option Int} (hedge : (source, e, a) ∈ d.edges)
    (h : d.withEdge source e b = .ok d') : d'.size = d.size := by
  obtain ⟨-, -, -, r, -, rfl⟩ | ⟨place, n, n', -, -, -, -, rfl⟩ := withEdge_cases hedge h
  · rfl
  · exact size_setNode

/-- Nodes that the edge does not leave stay as they are. -/
theorem node?_withEdge_of_ne {source : Option Int} (hedge : (source, e, a) ∈ d.edges)
    (h : d.withEdge source e b = .ok d') (hi : inRange d.size i) (hne : source ≠ some i) :
    d'.node? i = d.node? i := by
  obtain ⟨-, -, -, r, -, rfl⟩ | ⟨place, n, n', rfl, -, -, -, rfl⟩ := withEdge_cases hedge h
  · rfl
  · exact node?_setNode_of_ne (inRange_iff.1 hi).1 fun hip => hne (congrArg some hip.symm)

/-- An edge that is there can be led elsewhere, but the root edge not to nowhere. -/
theorem exists_withEdge {source : Option Int} (hedge : (source, e, a) ∈ d.edges)
    (hb : e = .root → b ≠ none) : ∃ d', d.withEdge source e b = .ok d' := by
  obtain ⟨rfl, rfl, rfl⟩ | ⟨place, n, rfl, hn, he⟩ := mem_edges.1 hedge
  · obtain ⟨r, rfl⟩ := Option.ne_none_iff_exists'.1 (hb rfl)
    exact ⟨_, withEdge_root_eq_ok_iff.2 ⟨r, rfl, rfl⟩⟩
  · obtain ⟨n', hn'⟩ : ∃ n', n.withChild e b = .ok n' := by
      cases n with
      | leaf p => cases he
      | branch p m r =>
        rcases Node.mem_children_branch.1 he with ⟨rfl, -⟩ | ⟨rfl, -⟩ <;> exact ⟨_, rfl⟩
    exact ⟨_, (withEdge_eq_ok_iff (ne_root_of_mem_children he)).2 ⟨n, n', hn, hn', rfl⟩⟩

/-- The edges of a diagram with another node in a place are its own, but for those of that node. -/
theorem mem_edges_setNode {source : Option Int} {n' : Node} (hn : d.nodes[place]? = some n) :
    (source, e, a) ∈ (d.setNode place n').edges ↔
      if source = some (place : Int) then (e, a) ∈ n'.children else (source, e, a) ∈ d.edges := by
  obtain ⟨hlt, -⟩ := List.getElem?_eq_some_iff.1 hn
  split
  · next hsource =>
    rw [hsource]
    exact mem_edges_of_node (List.getElem?_set_self hlt)
  · next hsource =>
    rw [mem_edges, mem_edges]
    refine or_congr Iff.rfl (exists_congr fun other => exists_congr fun m => ?_)
    refine and_congr_right fun hother => ?_
    have hne : place ≠ other := fun hplace => hsource (hplace ▸ hother)
    have hnode : (d.setNode place n').nodes[other]? = d.nodes[other]? := List.getElem?_set_ne hne
    rw [hnode]

/-- All other edges stay as they are. -/
theorem mem_edges_withEdge {source source' : Option Int} (hedge : (source, e, a) ∈ d.edges)
    (h : d.withEdge source e b = .ok d') : (source', e', c) ∈ d'.edges ↔
      if source' = source ∧ e' = e then c = b else (source', e', c) ∈ d.edges := by
  obtain ⟨rfl, rfl, rfl, r, rfl, rfl⟩ | ⟨place, n, n', rfl, hn, he, hn', rfl⟩ :=
    withEdge_cases hedge h
  · -- The root edge: the edges of all nodes stay.
    rw [mem_edges, mem_edges]
    split
    · next hsame =>
      obtain ⟨rfl, rfl⟩ := hsame
      simp [withRoot]
    · next hsame =>
      refine or_congr (and_congr_right fun hs => and_congr_right fun he => ?_) Iff.rfl
      exact absurd ⟨hs, he⟩ hsame
  · -- An edge of a branch: its other child stays, and so do all other nodes.
    rw [mem_edges_setNode hn]
    by_cases hsource : source' = some (place : Int)
    · rw [if_pos hsource, Node.mem_children_withChild hn', hsource, mem_edges_of_node hn]
      simp only [true_and]
    · rw [if_neg hsource, if_neg fun hsame => hsource hsame.1]

/-- No edge gets lost: it leads where it did, or it is the one led elsewhere. -/
theorem exists_edge_withEdge {source source' : Option Int} (hedge : (source, e, a) ∈ d.edges)
    (h : d.withEdge source e b = .ok d') (hc : (source', e', c) ∈ d.edges) :
    ∃ c', (source', e', c') ∈ d'.edges ∧ (c' = c ∨ c' = b) := by
  by_cases hsame : source' = source ∧ e' = e
  · exact ⟨b, (mem_edges_withEdge hedge h).2 (by rw [if_pos hsame]), .inr rfl⟩
  · exact ⟨c, (mem_edges_withEdge hedge h).2 (by rwa [if_neg hsame]), .inl rfl⟩

theorem InRange.mem_edges (hd : d.InRange) {source : Option Int}
    (h : (source, e, some t) ∈ d.edges) : RuleDiagram.inRange d.size t := by
  obtain ⟨-, -, ht⟩ | ⟨place, n, -, hn, he⟩ := Diagram.mem_edges.1 h
  · exact Option.some_inj.1 ht ▸ hd.root
  · exact hd.targets n (List.mem_of_getElem? hn) t (Node.mem_targets.2 ⟨e, he⟩)

/-- No edge leads beyond the nodes. -/
theorem InRange.target_ne_size (hd : d.InRange) {source : Option Int}
    (h : (source, e, a) ∈ d.edges) : a ≠ some (d.size : Int) := by
  rintro rfl
  exact absurd rfl (inRange_iff.1 (hd.mem_edges h)).2.ne

theorem inRange_of_mem_edges
    (h : ∀ source e t, (source, e, some t) ∈ d.edges → RuleDiagram.inRange d.size t) :
    d.InRange where
  root := h none .root d.root (Diagram.mem_edges.2 (.inl ⟨rfl, rfl, rfl⟩))
  targets n hn t ht := by
    obtain ⟨place, hplace⟩ := List.getElem?_of_mem hn
    obtain ⟨e, he⟩ := Node.mem_targets.1 ht
    exact h (some (place : Int)) e t ((Diagram.mem_edges_of_node hplace).2 he)

theorem InRange.withEdge (hd : d.InRange) {source : Option Int}
    (hedge : (source, e, a) ∈ d.edges) (h : d.withEdge source e b = .ok d')
    (hb : ∀ t, b = some t → RuleDiagram.inRange d.size t) : d'.InRange := by
  refine inRange_of_mem_edges fun source' e' t ht => ?_
  rw [size_withEdge hedge h]
  rw [mem_edges_withEdge hedge h] at ht
  split at ht
  · exact hb t ht.symm
  · exact hd.mem_edges ht

section Redirected

variable {links : List (Option Int × Edge)} {source target : Option Int} {result : Diagram}

/-- The edges that are there are still there when one of them is led elsewhere. -/
theorem present_withEdge (hedge : (source, e, a) ∈ d.edges)
    (h : d.withEdge source e b = .ok result)
    (hlinks : ∀ link ∈ links, ∃ a, (link.1, link.2, a) ∈ d.edges) :
    ∀ link ∈ links, ∃ a, (link.1, link.2, a) ∈ result.edges := by
  intro link hlink
  obtain ⟨c, hc⟩ := hlinks link hlink
  obtain ⟨c', hc', -⟩ := exists_edge_withEdge hedge h hc
  exact ⟨c', hc'⟩

/-- The edges of a diagram after some were led elsewhere one after another. -/
theorem mem_edges_redirected (hlinks : ∀ link ∈ links, ∃ a, (link.1, link.2, a) ∈ d.edges)
    (h : links.foldlM (fun d (source, e) => d.withEdge source e target) d = .ok result) :
    (source, e, a) ∈ result.edges ↔
      if (source, e) ∈ links then a = target else (source, e, a) ∈ d.edges := by
  -- Induction on the edges that are left.
  induction links generalizing d with
  | nil =>
    obtain rfl := Except.pure_eq_ok_iff.1 h
    rw [if_neg List.not_mem_nil]
  | cons link links ih =>
    obtain ⟨source', e'⟩ := link
    rw [List.foldlM_cons, Except.bind_eq_ok_iff] at h
    obtain ⟨next, hnext, h⟩ := h
    obtain ⟨⟨b, hedge⟩, hrest⟩ := List.forall_mem_cons.1 hlinks
    rw [ih (present_withEdge hedge hnext hrest) h, mem_edges_withEdge hedge hnext]
    simp only [List.mem_cons, Prod.mk.injEq]
    split_ifs <;> grind

/-- **Edges can be led elsewhere one after another**, but the root edge not to nowhere. -/
theorem exists_redirected (hlinks : ∀ link ∈ links, ∃ a, (link.1, link.2, a) ∈ d.edges)
    (htarget : ∀ link ∈ links, link.2 = .root → target ≠ none) :
    ∃ result, links.foldlM (fun d (source, e) => d.withEdge source e target) d = .ok result := by
  induction links generalizing d with
  | nil => exact ⟨d, rfl⟩
  | cons link links ih =>
    obtain ⟨source, e⟩ := link
    obtain ⟨⟨b, hedge⟩, hlinks⟩ := List.forall_mem_cons.1 hlinks
    obtain ⟨hroot, htarget⟩ := List.forall_mem_cons.1 htarget
    obtain ⟨next, hnext⟩ := exists_withEdge hedge hroot
    obtain ⟨result, hresult⟩ := ih (present_withEdge hedge hnext hlinks) htarget
    exact ⟨result, Except.bind_eq_ok_iff.2 ⟨next, hnext, hresult⟩⟩

end Redirected

/-! ## Removed nodes -/

/-- Another node's edge, or the root edge, leads to the node of an index. -/
def LedByOthers (d : Diagram) (i : Int) : Prop :=
  ∃ source e, (source, e, some i) ∈ d.edges ∧ source ≠ some i

theorem any_edges_eq_true_iff : (d.edges.any fun (source, _, t) =>
    decide (t = some i ∧ source ≠ some i)) = true ↔ d.LedByOthers i := by
  simp only [LedByOthers, List.any_eq_true, Prod.exists, decide_eq_true_eq]
  exact exists_congr fun source => exists_congr fun e =>
    ⟨fun ⟨_, hedge, rfl, hne⟩ => ⟨hedge, hne⟩, fun ⟨hedge, hne⟩ => ⟨_, hedge, rfl, hne⟩⟩

theorem filterMap_zipIdx_eraseIdx {α : Type} (xs : List α) (k place : Nat) :
    ((xs.zipIdx k).filterMap fun x => if (x.2 : Int) = (k + place : Nat) then none else some x.1) =
      xs.eraseIdx place := by
  induction xs generalizing k place with
  | nil => simp
  | cons x xs ih =>
    rw [List.zipIdx_cons, List.filterMap_cons]
    cases place with
    | zero =>
      -- The first member is dropped, and all others come at greater indices.
      have hkeep : ∀ y ∈ xs.zipIdx (k + 1),
          (if (y.2 : Int) = (k + 0 : Nat) then none else some y.1) = some y.1 := by
        rintro ⟨y, i⟩ hy
        have := List.le_snd_of_mem_zipIdx hy
        rw [if_neg (by simp only [Int.ofNat_inj]; omega)]
      rw [List.filterMap_congr hkeep]
      simp
    | succ place =>
      have hne : ¬ (k : Int) = (k + (place + 1) : Nat) := by omega
      have hih := ih (k + 1) place
      rw [show k + 1 + place = k + (place + 1) by omega] at hih
      simp only [hne, if_false, hih, List.eraseIdx_cons_succ]

/-- **The removal of a node**: it is not the root, only its own edges lead to it, and then it is
dropped and the indices above it are lowered. -/
theorem removeNode_eq_ok_iff : d.removeNode place = .ok d' ↔ d.root ≠ place ∧
    (∀ source e, (source, e, some (place : Int)) ∈ d.edges → source = some (place : Int)) ∧
      d' = ⟨(d.nodes.eraseIdx place).map (Node.mapTargets (shiftIndex place)),
        shiftIndex place d.root⟩ := by
  have herase := filterMap_zipIdx_eraseIdx d.nodes 0 place
  rw [Nat.zero_add] at herase
  unfold removeNode
  by_cases hroot : d.root = place
  · simp [hroot]
  · rw [if_neg hroot]
    split
    · -- An edge of another node leads here: the removal fails.
      next source e t hfind =>
      have hmem := List.mem_of_find?_eq_some hfind
      have hprop := List.find?_some hfind
      simp only [decide_eq_true_eq] at hprop
      obtain ⟨rfl, hne⟩ := hprop
      constructor
      · intro h
        cases h
      · rintro ⟨-, honly, -⟩
        exact absurd (honly source e hmem) hne
    · -- No other edge leads here: the removal is done.
      next hfind =>
      rw [List.find?_eq_none] at hfind
      have honly (source : Option Int) (e : Edge) (h : (source, e, some (place : Int)) ∈ d.edges) :
          source = some (place : Int) := by
        by_contra hne
        exact hfind _ h (by simpa using hne)
      rw [← herase]
      constructor
      · intro h
        exact ⟨hroot, honly, (Except.ok.inj h).symm⟩
      · rintro ⟨-, -, rfl⟩
        rfl

/-- A node that only its own edges lead to can be removed. -/
theorem exists_removeNode
    (h : ∀ source e, (source, e, some (place : Int)) ∈ d.edges → source = some (place : Int)) :
    ∃ d', d.removeNode place = .ok d' := by
  have hroot : d.root ≠ place := by
    intro hroot
    cases h none .root (mem_edges.2 (.inl ⟨rfl, rfl, congrArg some hroot.symm⟩))
  exact ⟨_, removeNode_eq_ok_iff.2 ⟨hroot, h, rfl⟩⟩

/-- A node that stays is found at the lowered index, with its targets lowered. -/
theorem node?_removed {r : Int} (hi : inRange d.size i) (hne : i ≠ place) :
    (⟨(d.nodes.eraseIdx place).map (Node.mapTargets (shiftIndex place)), r⟩ : Diagram).node?
      (shiftIndex place i) = (d.node? i).map (Node.mapTargets (shiftIndex place)) := by
  obtain ⟨k, n, rfl, hn⟩ := exists_getElem?_of_inRange hi
  rw [node?_natCast, shiftIndex]
  split
  · next hlt =>
    rw [node?_natCast, List.getElem?_map, List.getElem?_eraseIdx_of_lt (by omega)]
  · next hlt =>
    obtain ⟨k, rfl⟩ : ∃ k', k = k' + 1 := ⟨k - 1, by omega⟩
    rw [show ((k + 1 : Nat) : Int) - 1 = (k : Nat) by omega, node?_natCast, List.getElem?_map,
      List.getElem?_eraseIdx_of_ge (by omega)]

/-- A node that stays after a removal. -/
theorem exists_getElem?_removed (h : d.removeNode place = .ok d') {k : Nat}
    (hn : d.nodes[k]? = some n) (hne : k ≠ place) : ∃ k' : Nat, shiftIndex place k = k' ∧
      d'.nodes[k']? = some (n.mapTargets (shiftIndex place)) := by
  obtain ⟨-, -, rfl⟩ := removeNode_eq_ok_iff.1 h
  obtain ⟨k', hk'⟩ : ∃ k' : Nat, shiftIndex place k = k' := by
    refine Int.eq_ofNat_of_zero_le ?_
    unfold shiftIndex
    split <;> omega
  have hnode := node?_removed (r := shiftIndex place d.root) (inRange_of_getElem? hn)
    (Int.ofNat_inj.not.2 hne)
  rw [hk', node?_natCast, node?_natCast, hn, Option.map_some] at hnode
  exact ⟨k', hk', hnode⟩

/-- Where a node after a removal has been before. -/
theorem exists_getElem?_of_removed (h : d.removeNode place = .ok d') {k' : Nat}
    (hn' : d'.nodes[k']? = some n') : ∃ (k : Nat) (n : Node), k ≠ place ∧
      shiftIndex place k = k' ∧ d.nodes[k]? = some n ∧ n' = n.mapTargets (shiftIndex place) := by
  obtain ⟨-, -, rfl⟩ := removeNode_eq_ok_iff.1 h
  rw [List.getElem?_map, List.getElem?_eraseIdx, Option.map_eq_some_iff] at hn'
  obtain ⟨n, hn, rfl⟩ := hn'
  unfold shiftIndex
  split at hn
  · exact ⟨k', n, by omega, if_pos (by omega), hn, rfl⟩
  · exact ⟨k' + 1, n, by omega, by rw [if_neg (by omega)]; omega, hn, rfl⟩

/-- The edges after a removal are the edges before, but for those of the removed node. -/
theorem exists_edge_of_removed {source : Option Int} (h : d.removeNode place = .ok d')
    (hedge : (source, e, a) ∈ d'.edges) :
    ∃ source' a', (source', e, a') ∈ d.edges ∧ source' ≠ some (place : Int) ∧
      source = source'.map (shiftIndex place) ∧ a = a'.map (shiftIndex place) := by
  obtain ⟨rfl, rfl, rfl⟩ | ⟨k', n', rfl, hn', he⟩ := mem_edges.1 hedge
  · obtain ⟨-, -, rfl⟩ := removeNode_eq_ok_iff.1 h
    exact ⟨none, some d.root, mem_edges.2 (.inl ⟨rfl, rfl, rfl⟩), nofun, rfl, rfl⟩
  · obtain ⟨k, n, hne, hk, hn, rfl⟩ := exists_getElem?_of_removed h hn'
    obtain ⟨a', he', rfl⟩ := Node.mem_children_mapTargets.1 he
    refine ⟨some (k : Int), a', (mem_edges_of_node hn).2 he', fun hplace => hne ?_, ?_, rfl⟩
    · exact Int.ofNat_inj.1 (Option.some_inj.1 hplace)
    · rw [Option.map_some, hk]

/-- All other nodes keep their edges. -/
theorem mem_edges_removed {source : Option Int} (h : d.removeNode place = .ok d')
    (hedge : (source, e, a) ∈ d.edges) (hsource : source ≠ some (place : Int)) :
    (source.map (shiftIndex place), e, a.map (shiftIndex place)) ∈ d'.edges := by
  obtain ⟨rfl, rfl, rfl⟩ | ⟨k, n, rfl, hn, he⟩ := mem_edges.1 hedge
  · obtain ⟨-, -, rfl⟩ := removeNode_eq_ok_iff.1 h
    exact mem_edges.2 (.inl ⟨rfl, rfl, rfl⟩)
  · obtain ⟨k', hk', hn'⟩ := exists_getElem?_removed h hn fun hp => hsource (hp ▸ rfl)
    rw [Option.map_some, hk', mem_edges_of_node hn']
    exact Node.mem_children_mapTargets.2 ⟨a, he, rfl⟩

theorem shiftIndex_of_inRange (hi : inRange d.size i) : shiftIndex d.size i = i :=
  if_pos (inRange_iff.1 hi).2

theorem shiftIndex_inj {p i j : Int} (hi : i ≠ p) (hj : j ≠ p)
    (h : shiftIndex p i = shiftIndex p j) : i = j := by
  unfold shiftIndex at h
  split at h <;> split at h <;> omega

end Diagram

end RuleDiagram
