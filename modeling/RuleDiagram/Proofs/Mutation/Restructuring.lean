import RuleDiagram.Proofs.Mutation.Site
import RuleDiagram.Proofs.Reachability
import RuleDiagram.Proofs.Run.Preserved

/-!
# Mutations that restructure a diagram

Splicing a pass-through branch into an edge and taking one out, giving a shared child a copy of its
own and merging two children that are the same lead edges to targets where the same comes of every
snapshot, and remove nodes that nothing leads to. The facts at hand play no part in this: the
outputs are kept on all facts.

## Main results

* `Mutation.preserves_splice`, `Mutation.preserves_redirected`, `Mutation.preserves_duplicate`,
  `Mutation.preserves_merge`: what becomes of the edges
* `Mutation.yield_eq_of_edit`: these mutations keep what a diagram yields
* `Mutation.outputs_equal_of_restructuring`: they keep the outputs
-/

namespace RuleDiagram

open ListSet

variable {d d' : Diagram} {facts : List Fact} {place : Nat} {p : Pattern}
  {a b target source : Option Int} {e : Edge} {s : Snapshot} {evaluations : List Evaluation}
  {m : Mutation}

namespace Mutation

theorem findBranch_eq_ok_iff {index : Option Int} :
    findBranch d index = .ok (place, p, a, b) ↔
      index = some (place : Int) ∧ d.nodes[place]? = some (.branch p a b) := by
  simp only [findBranch, Except.bind_eq_ok_iff, Prod.exists, findNode_eq_ok_iff]
  constructor
  · rintro ⟨place', n, ⟨hindex, hn⟩, h⟩
    cases n with
    | branch p' a' b' =>
      cases Except.pure_eq_ok_iff.1 h
      exact ⟨hindex, hn⟩
    | leaf p' => exact absurd h reject_ne_ok
  · rintro ⟨hindex, hn⟩
    exact ⟨place, _, ⟨hindex, hn⟩, rfl⟩

theorem step_eq_ok_iff {α : Type} {x : Except EditFault α} {y : α} :
    step x = .ok y ↔ x = .ok y :=
  Except.mapError_eq_ok_iff

/-! ## Splicing and duplicating -/

theorem mem_edges_append {ns : List Node} (h : (source, e, a) ∈ d.edges) :
    (source, e, a) ∈ (d.append ns).edges := by
  obtain h | ⟨place, n, hs, hn, he⟩ := Diagram.mem_edges.1 h
  · exact Diagram.mem_edges.2 (.inl h)
  · obtain ⟨hlt, -⟩ := List.getElem?_eq_some_iff.1 hn
    exact Diagram.mem_edges.2
      (.inr ⟨place, n, hs, (List.getElem?_append_left hlt).trans hn, he⟩)

theorem source_ne_size (h : (source, e, a) ∈ d.edges) : source ≠ some (d.size : Int) := by
  rintro rfl
  obtain ⟨⟨⟩, -⟩ | ⟨place, n, hs, hn, -⟩ := Diagram.mem_edges.1 h
  have hrange := inRange_iff.1 (Diagram.inRange_of_getElem? hn)
  have := Option.some_inj.1 hs
  omega

/-- **An edge may be led to an appended node** from which the same comes as from the edge's target,
whatever the nodes between which it is put. -/
theorem preserves_lead_to_appended {n : Node} (hd : d.InRange)
    (hedge : (source, e, target) ∈ d.edges) (hn : ∀ t ∈ n.targets, inRange d.size t)
    (h : (d.append [n]).withEdge source e (some (d.size : Int)) = .ok d')
    (hsame : ∀ d'' : Diagram, d''.node? d.size = some n →
      (∀ t, inRange d.size t → source ≠ some t → d''.node? t = d.node? t) →
        ∀ s, d''.produced facts (some (d.size : Int)) s = d''.produced facts target s) :
    d.Preserves d' facts := by
  have hgrown : (d.append [n]).InRange :=
    hd.append fun m hm t ht => Diagram.inRange_append (hn t (List.mem_singleton.1 hm ▸ ht))
  have hsize : (d.append [n]).node? d.size = some n := by
    have hlast : (d.append [n]).node? (d.size + (0 : Nat)) = [n][0]? :=
      Diagram.node?_append_size_add 0
    simpa using hlast
  have hrange : inRange (d.append [n]).size (d.size : Int) := by
    rw [inRange_iff, Diagram.size_append, List.length_singleton]
    omega
  -- The node is there before the edge is led to it and after, and from it the same comes each time
  -- as from the old target.
  have hbefore := hsame _ hsize fun t ht _ => Diagram.node?_append_of_inRange ht
  have hafter := hsame d'
    ((Diagram.node?_withEdge_of_ne (mem_edges_append hedge) h hrange (source_ne_size hedge)).trans
      hsize)
    fun t ht hne => (Diagram.node?_withEdge_of_ne (mem_edges_append hedge) h
      (Diagram.inRange_append ht) hne).trans (Diagram.node?_append_of_inRange ht)
  refine (Diagram.preserves_append hd).trans
    (Diagram.preserves_withEdge hgrown (mem_edges_append hedge) h ?_ ?_ ?_)
  · rintro t ⟨⟩
    exact hrange
  · exact fun s => (hbefore s).subset
  · exact fun s => (hafter s).superset

/-- A pass-through branch may be put into an edge. -/
theorem preserves_splice (hd : d.InRange) (hedge : (source, e, target) ∈ d.edges)
    (h : (d.append [.branch .passThrough target target]).withEdge source e (some (d.size : Int)) =
      .ok d') : d.Preserves d' facts := by
  refine preserves_lead_to_appended hd hedge (fun t ht => ?_) h fun d'' hnode _ s => ?_
  · obtain rfl : target = some t := (Node.mem_targets_branch.1 ht).elim id id
    exact hd.mem_edges hedge
  · rw [Diagram.produced_passThrough hnode rfl, Set.union_self]

/-- An edge may be led to a copy of its target. -/
theorem preserves_duplicate {child : Int} {n : Node} (hd : d.InRange)
    (hedge : (source, e, some child) ∈ d.edges) (hsource : source ≠ some child)
    (hn : d.node? child = some n)
    (h : (d.append [n]).withEdge source e (some (d.size : Int)) = .ok d') :
    d.Preserves d' facts := by
  refine preserves_lead_to_appended hd hedge (fun t ht => hd.follow hn ht) h
    fun d'' hnode hother s => ?_
  have hchild := (hother child (hd.mem_edges hedge) hsource).trans hn
  rw [Diagram.produced_of_node hnode, Diagram.produced_of_node hchild]

/-! ## Collapsing -/

theorem mem_parents : (source, e) ∈ d.parents a ↔ (source, e, a) ∈ d.edges := by
  simp only [Diagram.parents, List.mem_filterMap, Prod.exists]
  constructor
  · rintro ⟨source', e', t, hedge, h⟩
    obtain ⟨rfl, ⟨⟩⟩ := Option.ite_none_right_eq_some.1 h
    exact hedge
  · exact fun h => ⟨source, e, a, h, if_pos rfl⟩

/-- The edges of other nodes, and perhaps the root edge, that lead to the node of an index. -/
theorem mem_parents_filter : ((source, e) ∈ (d.parents a).filter fun (source, _) =>
    decide (source ≠ a)) ↔ (source, e, a) ∈ d.edges ∧ source ≠ a := by
  rw [List.mem_filter, mem_parents, decide_eq_true_iff]

/-- **Edges that lead to a pass-through branch may be led to its target**, one after another. -/
theorem preserves_redirected {links : List (Option Int × Edge)} (hd : d.InRange)
    (hn : d.node? place = some (.branch p target target)) (hp : p.predicate = none)
    (hplace : inRange d.size place)
    (hlinks : ∀ link ∈ links, link.1 ≠ some (place : Int) ∧
      ∃ a, (link.1, link.2, a) ∈ d.edges ∧ (a = some (place : Int) ∨ a = target))
    (h : links.foldlM (fun d (source, e) => d.withEdge source e target) d = .ok d') :
    d.Preserves d' facts ∧ d'.InRange := by
  -- Induction on the edges that are left; those led to the target before may come again.
  induction links generalizing d with
  | nil =>
    obtain rfl := Except.pure_eq_ok_iff.1 h
    exact ⟨.refl d facts, hd⟩
  | cons link links ih =>
    obtain ⟨source, e⟩ := link
    rw [List.foldlM_cons, Except.bind_eq_ok_iff] at h
    obtain ⟨next, hnext, h⟩ := h
    obtain ⟨⟨hsource, a, hedge, ha⟩, hrest⟩ := List.forall_mem_cons.1 hlinks
    have hn' := (Diagram.node?_withEdge_of_ne hedge hnext hplace hsource).trans hn
    have htarget (t : Int) (ht : target = some t) : inRange d.size t :=
      hd.follow hn (Node.mem_targets_branch.2 (.inl ht))
    -- From the pass-through branch the same comes as from its target.
    have hsame {d : Diagram} (hn : d.node? place = some (.branch p target target)) (s : Snapshot) :
        d.produced facts a s = d.produced facts target s := by
      rcases ha with rfl | rfl
      · rw [Diagram.produced_passThrough hn hp, Set.union_self]
      · rfl
    have hkept : d.Preserves next facts := Diagram.preserves_withEdge hd hedge hnext htarget
      (fun s => (hsame hn s).superset) fun s => (hsame hn' s).subset
    have hplace' : inRange next.size place := by
      rwa [Diagram.size_withEdge hedge hnext]
    obtain ⟨hpreserves, hrange⟩ := ih (hd.withEdge hedge hnext htarget) hn' hplace' (fun l hl => by
      obtain ⟨hne, c, hc, hcases⟩ := hrest l hl
      -- The edge just led elsewhere leads to the target, all others lead where they did.
      obtain ⟨c', hc', rfl | rfl⟩ := Diagram.exists_edge_withEdge hedge hnext hc
      · exact ⟨hne, c', hc', hcases⟩
      · exact ⟨hne, c', hc', .inr rfl⟩) h
    exact ⟨hkept.trans hpreserves, hrange⟩

/-! ## Merging -/

/-- A branch that leads to itself both ways produces all that a branch with the same pattern does
that leads to the one and to itself. -/
theorem produces_of_loop {q : Pattern} {i j : Int} {f : Fact}
    (hi : d.node? i = some (.branch p (some i) (some i)))
    (hj : d.node? j = some (.branch q (some i) (some j))) (hqp : Same q p)
    (h : d.Produces facts j s f) : d.Produces facts i s f := by
  -- Induction on how the fact is produced: it goes on at the one branch, or at the other again.
  generalize hk : j = k at h
  induction h with
  | emit hn hf =>
    subst hk
    obtain rfl := Option.some_inj.1 (hj.symm.trans hn)
    exact hf.elim
  | @send k k' n e s u f hn he hu h ih =>
    subst hk
    obtain rfl := Option.some_inj.1 (hj.symm.trans hn)
    have hsame : Same (Node.branch q (some i) (some i)) (.branch p (some i) (some i)) :=
      Node.same_iff.2 (.inl ⟨q, p, _, _, rfl, rfl, hqp⟩)
    have hu' := Node.sends_mono hsame subset_rfl (Same.refl s) hu
    rcases Node.mem_children_branch.1 he with ⟨rfl, hk⟩ | ⟨rfl, hk⟩
    · obtain rfl := Option.some_inj.1 hk
      exact .send hi (.head _) hu' h
    · obtain rfl := Option.some_inj.1 hk
      exact .send hi (.tail _ (.head _)) hu' (ih rfl)

/-- The refute edge of a branch may be led to its match child, if that is the same as its refute
child. -/
theorem preserves_merge {kept dropped : Int} {x y : Node} (hd : d.InRange)
    (hn : d.nodes[place]? = some (.branch p (some kept) (some dropped))) (hne : dropped ≠ place)
    (hx : d.node? kept = some x) (hy : d.node? dropped = some y) (hxy : Same x y)
    (h : d.withEdge (some (place : Int)) .onRefute (some kept) = .ok d') :
    d.Preserves d' facts ∧ d'.InRange := by
  have hedge := Diagram.mem_edges_onRefute hn
  have hkept : inRange d.size kept := hd.mem_edges (Diagram.mem_edges_onMatch hn)
  have hother {i : Int} (hi : inRange d.size i) (hi' : i ≠ place) : d'.node? i = d.node? i :=
    Diagram.node?_withEdge_of_ne hedge h hi fun hp => hi' (Option.some_inj.1 hp).symm
  have hy' : d'.node? dropped = some y := (hother (hd.mem_edges hedge) hne).trans hy
  have htarget (t : Int) (ht : some kept = some t) : inRange d.size t :=
    Option.some_inj.1 ht ▸ hkept
  refine ⟨Diagram.preserves_withEdge hd hedge h htarget (fun s => ?_) fun s => ?_,
    hd.withEdge hedge h htarget⟩
  · -- Before the edit the children are the same, so they relay the same.
    rw [Diagram.produced_of_node hx, Diagram.produced_of_node hy]
    exact Node.relays_subset_of_same hxy (Same.refl s)
  · by_cases hkp : kept = place
    · -- The branch leads to itself now, and the child that it led to still leads to both.
      subst hkp
      obtain rfl : x = .branch p (some (place : Int)) (some dropped) :=
        Option.some_inj.1 (hx.symm.trans ((Diagram.node?_natCast place).trans hn))
      obtain ⟨_, q, _, _, hnode, rfl, hpq⟩ | ⟨_, _, hnode, -⟩ := Node.same_iff.1 hxy <;>
        cases hnode
      obtain ⟨m, m', hm, hm', rfl⟩ := (Diagram.withEdge_eq_ok_iff (by decide)).1 h
      obtain rfl := Option.some_inj.1 (hn.symm.trans hm)
      cases hm'
      obtain ⟨hlt, -⟩ := List.getElem?_eq_some_iff.1 hn
      have hloop := Diagram.node?_setNode_self
        (n := .branch p (some (place : Int)) (some (place : Int))) hlt
      intro f hf
      rw [Diagram.mem_produced_some] at hf ⊢
      exact produces_of_loop hloop hy' hpq.symm hf
    · -- Neither child is the edited branch, so they are the same after the edit too.
      rw [Diagram.produced_of_node hy', Diagram.produced_of_node ((hother hkept hkp).trans hx)]
      exact Node.relays_subset_of_same hxy.symm (Same.refl s)

/-! ## The mutations -/

theorem node_eq_ok_iff {i : Int} {n : Node} : d.node i = .ok n ↔ d.node? i = some n := by
  unfold Diagram.node
  split <;> simp_all

/-- **Splicing into an edge** that is there: its source is named, or it is the root edge. -/
theorem edit_spliceEdge_eq_ok_iff {n : Option Int} :
    (spliceEdge n e).edit d evaluations = .ok d' ↔
      ∃ source target, (e = .root ∨ n = source) ∧ (source, e, target) ∈ d.edges ∧
        (d.append [.branch .passThrough target target]).withEdge source e (some (d.size : Int)) =
          .ok d' := by
  cases e with
  | root =>
    constructor
    · exact fun h => ⟨none, some d.root, .inl rfl, Diagram.mem_edges.2 (.inl ⟨rfl, rfl, rfl⟩),
        step_eq_ok_iff.1 h⟩
    · rintro ⟨source, target, -, hedge, h⟩
      obtain ⟨rfl, -, rfl⟩ | ⟨_, _, -, -, he⟩ := Diagram.mem_edges.1 hedge
      · exact step_eq_ok_iff.2 h
      · exact absurd rfl (Diagram.ne_root_of_mem_children he)
  | onMatch | onRefute =>
    simp only [edit, Except.bind_eq_ok_iff, Prod.exists, findBranch_eq_ok_iff,
      Except.pure_eq_ok_iff, step_eq_ok_iff, reduceCtorEq, false_or]
    constructor
    · rintro ⟨place, p, a, b, ⟨rfl, hn⟩, _, rfl, h⟩
      exact ⟨_, _, rfl, (Diagram.mem_edges_of_node hn).2 (by simp [Node.children]), h⟩
    · rintro ⟨_, target, rfl, hedge, h⟩
      obtain ⟨-, ⟨⟩, -⟩ | ⟨place, m, rfl, hn, he⟩ := Diagram.mem_edges.1 hedge
      cases m with
      | leaf p => cases he
      | branch p a b =>
        obtain rfl : target = _ := by simpa [Node.children] using he
        exact ⟨place, p, _, _, ⟨rfl, hn⟩, _, rfl, h⟩

/-- **Collapsing a branch**: it is pass-through, its edges share their target, which is another node
or nothing, and the root edge has somewhere to lead. -/
theorem edit_collapsePassThrough_eq_ok_iff {n : Option Int} :
    (collapsePassThrough n).edit d evaluations = .ok d' ↔
      ∃ (place : Nat) (p : Pattern) (target : Option Int) (result : Diagram),
        n = some (place : Int) ∧ d.nodes[place]? = some (.branch p target target) ∧
        p.predicate = none ∧ target ≠ some (place : Int) ∧ ¬ (target = none ∧ d.root = place) ∧
        ((d.parents (some (place : Int))).filter fun (source, _) =>
            decide (source ≠ some (place : Int))).foldlM
          (fun d (source, e) => d.withEdge source e target) d = .ok result ∧
        result.removeNode place = .ok d' := by
  have hpass {p : Pattern} : (!p.isPassThrough) = false ↔ p.predicate = none := by
    simp [Pattern.isPassThrough]
  simp only [edit, Except.bind_eq_ok_iff, Prod.exists, findBranch_eq_ok_iff, rejectIf_eq_ok_iff,
    step_eq_ok_iff, hpass, decide_eq_false_iff_not, not_not]
  constructor
  · rintro ⟨place, p, target, _, ⟨rfl, hn⟩, -, hp, -, rfl, -, hloop, -, hroot, result, hresult, h⟩
    exact ⟨place, p, target, result, rfl, hn, hp, hloop, hroot, hresult, h⟩
  · rintro ⟨place, p, target, result, rfl, hn, hp, hloop, hroot, hresult, h⟩
    exact ⟨place, p, target, target, ⟨rfl, hn⟩, (), hp, (), rfl, (), hloop, (), hroot, result,
      hresult, h⟩

/-- **Giving a shared child a copy**: it is another node than its parent. -/
theorem edit_duplicateNode_eq_ok_iff {n : Option Int} :
    (duplicateNode n).edit d evaluations = .ok d' ↔
      ∃ (place : Nat) (p : Pattern) (child : Int) (x : Node),
        n = some (place : Int) ∧ d.nodes[place]? = some (.branch p (some child) (some child)) ∧
        child ≠ place ∧ d.node? child = some x ∧
        (d.append [x]).withEdge (some (place : Int)) .onRefute (some (d.size : Int)) = .ok d' := by
  simp only [edit, Except.bind_eq_ok_iff, Prod.exists, findBranch_eq_ok_iff]
  constructor
  · rintro ⟨place, p, child, other, ⟨rfl, hn⟩, h⟩
    cases child with
    | none => exact absurd h reject_ne_ok
    | some child =>
      simp only [Except.bind_eq_ok_iff, rejectIf_eq_ok_iff, step_eq_ok_iff, node_eq_ok_iff,
        decide_eq_false_iff_not, not_not] at h
      obtain ⟨-, rfl, -, hne, x, hx, h⟩ := h
      exact ⟨place, p, child, x, rfl, hn, hne, hx, h⟩
  · rintro ⟨place, p, child, x, rfl, hn, hne, hx, h⟩
    refine ⟨place, p, some child, some child, ⟨rfl, hn⟩, ?_⟩
    simp only [Except.bind_eq_ok_iff, rejectIf_eq_ok_iff, step_eq_ok_iff, node_eq_ok_iff,
      decide_eq_false_iff_not, not_not]
    exact ⟨(), trivial, (), hne, x, hx, h⟩

/-- **Merging two children** that are the same: the dropped one is neither the kept one nor their
parent, and is removed unless another node's edge leads to it. -/
theorem edit_mergeNodes_eq_ok_iff {n : Option Int} :
    (mergeNodes n).edit d evaluations = .ok d' ↔
      ∃ (place : Nat) (p : Pattern) (kept dropped : Int) (x y : Node) (result : Diagram),
        n = some (place : Int) ∧ d.nodes[place]? = some (.branch p (some kept) (some dropped)) ∧
        kept ≠ dropped ∧ dropped ≠ place ∧ d.node? kept = some x ∧ d.node? dropped = some y ∧
        Same x y ∧ d.withEdge (some (place : Int)) .onRefute (some kept) = .ok result ∧
        (result.LedByOthers dropped ∧ d' = result ∨
          ¬ result.LedByOthers dropped ∧ result.removeNode dropped = .ok d') := by
  simp only [edit, Except.bind_eq_ok_iff, Prod.exists, findBranch_eq_ok_iff]
  constructor
  · rintro ⟨place, p, kept, dropped, ⟨rfl, hn⟩, h⟩
    split at h
    · next kept dropped =>
      simp only [Except.bind_eq_ok_iff, rejectIf_eq_ok_iff, step_eq_ok_iff, node_eq_ok_iff,
        decide_eq_false_iff_not, Bool.not_eq_false', decide_eq_true_eq] at h
      obtain ⟨-, hne, -, hplace, x, hx, y, hy, -, hsame, result, hresult, h⟩ := h
      refine ⟨place, p, kept, dropped, x, y, result, rfl, hn, hne, hplace, hx, hy, hsame, hresult,
        ?_⟩
      split at h
      · next hled =>
        exact .inl ⟨Diagram.any_edges_eq_true_iff.1 hled, (Except.pure_eq_ok_iff.1 h).symm⟩
      · next hled => exact .inr ⟨mt Diagram.any_edges_eq_true_iff.2 hled, step_eq_ok_iff.1 h⟩
    · exact absurd h reject_ne_ok
  · rintro ⟨place, p, kept, dropped, x, y, result, rfl, hn, hne, hplace, hx, hy, hsame, hresult, h⟩
    refine ⟨place, p, some kept, some dropped, ⟨rfl, hn⟩, ?_⟩
    simp only [Except.bind_eq_ok_iff, rejectIf_eq_ok_iff, step_eq_ok_iff, node_eq_ok_iff,
      decide_eq_false_iff_not, Bool.not_eq_false', decide_eq_true_eq]
    refine ⟨(), hne, (), hplace, x, hx, y, hy, (), hsame, result, hresult, ?_⟩
    rcases h with ⟨hled, rfl⟩ | ⟨hled, h⟩
    · exact if_pos (Diagram.any_edges_eq_true_iff.2 hled)
    · exact (if_neg (mt Diagram.any_edges_eq_true_iff.1 hled)).trans (step_eq_ok_iff.2 h)

/-- **Mutations that restructure a diagram keep what it yields**, on all facts. -/
theorem yield_eq_of_edit (hd : d.InRange)
    (hm : m.kind ∈ [.spliceEdge, .collapsePassThrough, .duplicateNode, .mergeNodes])
    (h : m.edit d evaluations = .ok d') (facts : List Fact) : d'.yield facts = d.yield facts := by
  cases m with
  | spliceEdge n e =>
    obtain ⟨source, target, -, hedge, h⟩ := edit_spliceEdge_eq_ok_iff.1 h
    exact (preserves_splice hd hedge h).yield_eq
  | collapsePassThrough n =>
    obtain ⟨place, p, target, result, -, hn, hp, -, -, hresult, h⟩ :=
      edit_collapsePassThrough_eq_ok_iff.1 h
    obtain ⟨hpreserves, hrange⟩ : d.Preserves result facts ∧ result.InRange :=
      preserves_redirected hd ((Diagram.node?_natCast place).trans hn) hp
        (Diagram.inRange_of_getElem? hn) (fun link hlink => by
          obtain ⟨hparent, hne⟩ := List.mem_filter.1 hlink
          exact ⟨of_decide_eq_true hne, _, mem_parents.1 hparent, .inl rfl⟩) hresult
    rw [Diagram.yield_removeNode hrange h, hpreserves.yield_eq]
  | duplicateNode n =>
    obtain ⟨place, p, child, x, -, hn, hne, hx, h⟩ := edit_duplicateNode_eq_ok_iff.1 h
    have hedge := Diagram.mem_edges_onRefute hn
    exact (preserves_duplicate hd hedge (fun hs => hne (Option.some_inj.1 hs).symm) hx h).yield_eq
  | mergeNodes n =>
    obtain ⟨place, p, kept, dropped, x, y, result, -, hn, -, hne, hx, hy, hxy, hresult, h⟩ :=
      edit_mergeNodes_eq_ok_iff.1 h
    obtain ⟨hpreserves, hrange⟩ : d.Preserves result facts ∧ result.InRange :=
      preserves_merge hd hn hne hx hy hxy hresult
    rcases h with ⟨-, rfl⟩ | ⟨-, h⟩
    · exact hpreserves.yield_eq
    · have hdropped : inRange d.size dropped := hd.mem_edges (Diagram.mem_edges_onRefute hn)
      obtain ⟨k, rfl⟩ := Int.eq_ofNat_of_zero_le (inRange_iff.1 hdropped).1
      rw [Diagram.yield_removeNode hrange h, hpreserves.yield_eq]
  | _ => simp [kind] at hm

/-- **Mutations that restructure a diagram keep its outputs**, on all facts, under all limits within
which both evaluations end. -/
theorem outputs_equal_of_restructuring {registry registry' : Option Registry}
    {limit limit' : RoundLimit} {e e' : Evaluation} (hd : d.validate registry = .ok d)
    (hm : m.kind ∈ [.spliceEdge, .collapsePassThrough, .duplicateNode, .mergeNodes])
    (happly : m.apply registry' d evaluations = .ok d')
    (he : d.evaluate facts limit = .ok e) (he' : d'.evaluate facts limit' = .ok e') :
    ListSet.equal e'.outputs e.outputs := by
  have hwell := Diagram.wellFormed_of_fault?_eq_none (Diagram.validate_eq_ok_iff.1 hd).1
  obtain ⟨-, hedit, -⟩ := apply_eq_ok_iff.1 happly
  rw [equal_iff, (Diagram.settled_of_evaluate_eq_ok he).toSet_outputs,
    (Diagram.settled_of_evaluate_eq_ok he').toSet_outputs]
  exact yield_eq_of_edit hwell.allInRange hm hedit facts

end Mutation

/-- With a pass-through branch on the way back the circle takes more rounds, and all its nodes are
still found. -/
theorem Reachability.outputs_equal_spliced : ∃ e e' d',
    diagram.evaluate circle .standard = .ok e ∧
    (Mutation.spliceEdge (some 4) .onMatch).apply none diagram [] = .ok d' ∧
    d'.evaluate circle .standard = .ok e' ∧ d'.size = 6 ∧ e.rounds < e'.rounds ∧
    ListSet.equal e'.outputs e.outputs := by
  have hvalid : diagram.validate none = .ok diagram := rfl
  have hruns : (diagram.evaluate circle .standard).toOption.any fun e =>
      ((Mutation.spliceEdge (some 4) .onMatch).apply none diagram []).toOption.any fun d' =>
        (d'.evaluate circle .standard).toOption.any fun e' =>
          decide (d'.size = 6 ∧ e.rounds < e'.rounds) := by
    decide
  obtain ⟨e, he, hruns⟩ := Except.exists_of_any_toOption hruns
  obtain ⟨d', hd', hruns⟩ := Except.exists_of_any_toOption hruns
  obtain ⟨e', he', hruns⟩ := Except.exists_of_any_toOption hruns
  obtain ⟨hsize, hrounds⟩ := of_decide_eq_true hruns
  exact ⟨e, e', d', he, hd', he', hsize, hrounds,
    Mutation.outputs_equal_of_restructuring hvalid (by decide) hd' he he'⟩

end RuleDiagram
