import Mathlib.Logic.Function.Basic
import RuleDiagram.Proofs.Diagram.Editing
import RuleDiagram.Proofs.Diagram.Valid
import RuleDiagram.Proofs.Run.Propagation

/-!
# Registers that are secured on entry

That references read what is written on all ways can be vouched for without ways: by a set of
registers for each index such that no edge leads to an index without bringing its registers along.
The registers that all ways to an index write are such sets. So a diagram is valid if and only if
some sets vouch for it, and an edit keeps a diagram valid if sets for the unedited diagram can be
made sets for the edited one.

## Main definitions

* `Node.shape`: a node without its targets
* `Diagram.boundAlong`: the registers that an edge brings along
* `Diagram.Secured`: a diagram for which sets of registers vouch

## Main results

* `Diagram.valid_iff_exists_secured`: the valid diagrams are those that some sets vouch for
* `Diagram.Secured.append`, `Diagram.Secured.withEdge`, `Diagram.Secured.redirected`,
  `Diagram.Secured.removeNode`: sets for edited diagrams
* `Diagram.Secured.meet`: two nodes that are the same may be entered with the same registers
-/

namespace RuleDiagram

variable {d d' : Diagram} {registry : Option Registry} {n n' x y : Node} {e : Edge}
  {a b source target : Option Int} {B C : Int → Set Int} {R : Set Int} {i j r t : Int}
  {place : Nat} {way : List (Int × Edge)} {ts us : List Term}

/-! ## Nodes without their targets -/

namespace Node

/-- A node without its targets: its pattern, and whether it is a branch. -/
def shape (n : Node) : Pattern × Bool := (n.pattern, n.isBranch)

theorem pattern_eq_of_shape (h : n'.shape = n.shape) : n'.pattern = n.pattern :=
  congrArg Prod.fst h

/-- What is asked of a node does not depend on where its edges lead. -/
theorem Valid.of_shape (hn : n.Valid registry) (h : n'.shape = n.shape) : n'.Valid registry := by
  obtain ⟨hpattern, hbranch⟩ := Prod.mk.inj h
  constructor
  · exact hpattern ▸ hn.registers
  · exact hpattern ▸ hn.fits
  · exact hpattern ▸ hn.registered
  · exact hpattern ▸ hbranch ▸ hn.leaf

@[simp] theorem shape_mapTargets {f : Int → Int} : (n.mapTargets f).shape = n.shape := by
  cases n <;> rfl

theorem shape_withChild (h : n.withChild e b = .ok n') : n'.shape = n.shape := by
  obtain ⟨p, m, r, rfl, ⟨-, rfl⟩ | ⟨-, rfl⟩⟩ := withChild_eq_ok_iff.1 h <;> rfl

theorem children_eq_of_same (h : Same x y) : x.children = y.children := by
  rcases same_iff.1 h with ⟨p, q, a, b, rfl, rfl, -⟩ | ⟨p, q, rfl, rfl, -⟩ <;> rfl

theorem forall₂_terms_of_same (h : Same x y) :
    List.Forall₂ Same x.pattern.terms y.pattern.terms := by
  rcases same_iff.1 h with ⟨p, q, a, b, rfl, rfl, hpq⟩ | ⟨p, q, rfl, rfl, hpq⟩ <;>
    exact (Pattern.same_iff.1 hpq).2

end Node

/-! ## What terms read and write -/

theorem ReadsWithin.inter {B C : Set Int} (hB : ReadsWithin ts B) (hC : ReadsWithin ts C) :
    ReadsWithin ts (B ∩ C) := by
  intro k r hk
  rcases hB k r hk with h | hrB
  · exact .inl h
  · rcases hC k r hk with h | hrC
    · exact .inl h
    · exact .inr ⟨hrB, hrC⟩

theorem free_mem_of_same (h : List.Forall₂ Same ts us) (hr : .free r ∈ ts) : .free r ∈ us := by
  obtain ⟨b, hb, hsame⟩ := List.exists_right_of_forall₂ h hr
  obtain ⟨v, w, ⟨⟩, -⟩ | ⟨_, ⟨⟩, -⟩ | ⟨_, ⟨⟩, rfl⟩ := Term.same_iff.1 hsame
  exact hb

/-- Terms that are the same read and write the same registers. -/
theorem readsWithin_of_same {B : Set Int} (h : List.Forall₂ Same ts us) (hu : ReadsWithin us B) :
    ReadsWithin ts B := by
  induction h generalizing B with
  | nil => exact readsWithin_nil
  | @cons a b ts us hab _ ih =>
    obtain ⟨hfirst, hrest⟩ := readsWithin_cons.1 hu
    rcases Term.same_iff.1 hab with ⟨v, w, rfl, rfl, -⟩ | ⟨r, rfl, rfl⟩ | ⟨r, rfl, rfl⟩
    · refine readsWithin_cons.2 ⟨nofun, (ih hrest).mono ?_⟩
      exact Set.union_subset_union_right _ fun _ hr => by cases hr
    · exact readsWithin_cons.2 ⟨hfirst, ih hrest⟩
    · exact readsWithin_cons.2 ⟨hfirst, ih hrest⟩

/-! ## Sets of registers that vouch for a diagram -/

namespace Diagram

/-- The registers that an edge brings along, with given ones on entry to each node: those of its
source, and on the match edge also those that its source writes. The root edge brings none. -/
def boundAlong (d : Diagram) (B : Int → Set Int) (source : Option Int) (e : Edge) : Set Int :=
  {r | ∃ (place : Nat) (n : Node), source = some (place : Int) ∧ d.nodes[place]? = some n ∧
    (r ∈ B place ∨ e = .onMatch ∧ .free r ∈ n.pattern.terms)}

/-- **Sets of registers vouch for a diagram**: each node is valid and reads registers of the set of
its place, and no edge leads to an index without bringing the registers of its set along. -/
structure Secured (registry : Option Registry) (B : Int → Set Int) (d : Diagram) : Prop
    extends d.InRange where
  valid : ∀ n ∈ d.nodes, n.Valid registry
  reads : ∀ (place : Nat) n, d.nodes[place]? = some n → ReadsWithin n.pattern.terms (B place)
  edges : ∀ source e t, (source, e, some t) ∈ d.edges → B t ⊆ d.boundAlong B source e

theorem boundAlong_of_node (hn : d.nodes[place]? = some n) :
    d.boundAlong B (some (place : Int)) e = B place ∪ {r | e = .onMatch ∧ .free r ∈ n.pattern.terms}
    := by
  ext r
  constructor
  · rintro ⟨other, m, hsame, hm, hr⟩
    obtain rfl : place = other := Int.ofNat_inj.1 (Option.some_inj.1 hsame)
    obtain rfl := Option.some_inj.1 (hn.symm.trans hm)
    exact hr
  · exact fun hr => ⟨place, n, rfl, hn, hr⟩

theorem boundAlong_root : d.boundAlong B none e = ∅ := by
  refine Set.eq_empty_of_forall_notMem ?_
  rintro r ⟨place, n, ⟨⟩, -⟩

namespace Secured

theorem writtenOn (h : d.Secured registry B) (hway : d.Way way i) :
    ∀ r ∈ B i, d.WrittenOn way r := by
  -- Induction on the way: its last edge brings the registers along.
  induction hway with
  | root =>
    intro r hr
    have hnone := h.edges none .root d.root (mem_edges.2 (.inl ⟨rfl, rfl, rfl⟩)) hr
    rw [boundAlong_root] at hnone
    exact hnone.elim
  | @step way i t n e hway hn ht ih =>
    intro r hr
    obtain ⟨place, rfl, hplace⟩ := exists_place_of_node? (hway.inRange h.root h.targets) hn
    have hbrought := h.edges _ e t ((mem_edges_of_node hplace).2 ht) hr
    rw [boundAlong_of_node hplace] at hbrought
    rcases hbrought with hr | ⟨rfl, hfree⟩
    · exact (ih r hr).append
    · cases n with
      | branch p a b => exact writtenOn_concat.2 (.inr ⟨rfl, p, a, b, hn, hfree⟩)
      | leaf p => cases ht

end Secured

/-- **The valid diagrams are those that some sets vouch for**: the registers that all ways to an
index write do. -/
theorem valid_iff_exists_secured : d.Valid registry ↔ ∃ B, d.Secured registry B := by
  constructor
  · intro h
    refine ⟨fun i => {r | ∀ way, d.Way way i → d.WrittenOn way r}, ⟨h.root, h.targets⟩, h.nodes,
      fun place n hn k r hk => ?_, fun source e t hedge r hr => ?_⟩
    · refine or_iff_not_imp_left.2 fun hfree way hway => ?_
      exact (h.references way place n hway ((node?_natCast place).trans hn) k r hk).resolve_left
        hfree
    · obtain ⟨rfl, rfl, ht⟩ | ⟨place, n, rfl, hn, he⟩ := mem_edges.1 hedge
      · -- Nothing is written on the empty way to the root.
        obtain rfl := Option.some_inj.1 ht
        exact absurd (hr [] .root) not_writtenOn_nil
      · rw [boundAlong_of_node hn]
        refine or_iff_not_imp_right.2 fun hlast way hway => ?_
        have hn' : d.node? place = some n := (node?_natCast place).trans hn
        refine (writtenOn_concat.1 (hr _ (hway.step hn' he))).resolve_right ?_
        rintro ⟨rfl, p, a, b, hbranch, hfree⟩
        obtain rfl := Option.some_inj.1 (hn'.symm.trans hbranch)
        exact hlast ⟨rfl, hfree⟩
  · rintro ⟨B, h⟩
    refine ⟨?_, h.root, h.targets, h.valid, fun way i n hway hn => ?_⟩
    · obtain ⟨place, n, -, hn⟩ := exists_getElem?_of_inRange h.root
      exact List.ne_nil_of_mem (List.mem_of_getElem? hn)
    · obtain ⟨place, rfl, hplace⟩ := exists_place_of_node? (hway.inRange h.root h.targets) hn
      exact (h.reads place n hplace).mono (h.writtenOn hway)

/-! ## Edits -/

theorem exists_getElem?_of_shapes (h : d'.nodes.map Node.shape = d.nodes.map Node.shape)
    (hn : d.nodes[place]? = some n) : ∃ n', d'.nodes[place]? = some n' ∧ n'.shape = n.shape := by
  have hshape : (d'.nodes.map Node.shape)[place]? = some n.shape := by
    rw [h, List.getElem?_map, hn, Option.map_some]
  rw [List.getElem?_map] at hshape
  exact Option.map_eq_some_iff.1 hshape

/-- An edge led elsewhere leaves each node as it is, its targets aside. -/
theorem map_shape_withEdge (hedge : (source, e, a) ∈ d.edges)
    (h : d.withEdge source e b = .ok d') : d'.nodes.map Node.shape = d.nodes.map Node.shape := by
  obtain ⟨-, -, -, r, -, rfl⟩ | ⟨place, n, n', -, hn, -, hn', rfl⟩ := withEdge_cases hedge h
  · rfl
  · obtain ⟨hlt, hget⟩ := List.getElem?_eq_some_iff.1 hn
    have hplace : place < (d.nodes.map Node.shape).length := by rwa [List.length_map]
    have hshape : n.shape = (d.nodes.map Node.shape)[place] := by rw [List.getElem_map, hget]
    rw [setNode, List.map_set, Node.shape_withChild hn', hshape, List.set_getElem_self]

/-- And so do edges led elsewhere one after another. -/
theorem map_shape_redirected {links : List (Option Int × Edge)}
    (hlinks : ∀ link ∈ links, ∃ a, (link.1, link.2, a) ∈ d.edges)
    (h : links.foldlM (fun d (source, e) => d.withEdge source e target) d = .ok d') :
    d'.nodes.map Node.shape = d.nodes.map Node.shape := by
  induction links generalizing d with
  | nil =>
    obtain rfl := Except.pure_eq_ok_iff.1 h
    rfl
  | cons link links ih =>
    obtain ⟨source, e⟩ := link
    rw [List.foldlM_cons, Except.bind_eq_ok_iff] at h
    obtain ⟨next, hnext, h⟩ := h
    obtain ⟨⟨b, hedge⟩, hrest⟩ := List.forall_mem_cons.1 hlinks
    exact (ih (present_withEdge hedge hnext hrest) h).trans (map_shape_withEdge hedge hnext)

/-- Edges bring the same registers along, wherever the edges of their sources lead. -/
theorem boundAlong_of_shapes (h : d'.nodes.map Node.shape = d.nodes.map Node.shape) :
    d'.boundAlong B source e = d.boundAlong B source e := by
  have hsubset {d d' : Diagram} (h : d'.nodes.map Node.shape = d.nodes.map Node.shape) :
      d.boundAlong B source e ⊆ d'.boundAlong B source e := by
    rintro r ⟨place, n, rfl, hn, hr⟩
    obtain ⟨n', hn', hshape⟩ := exists_getElem?_of_shapes h hn
    exact ⟨place, n', rfl, hn', Node.pattern_eq_of_shape hshape ▸ hr⟩
  exact (hsubset h.symm).antisymm (hsubset h)

theorem update_size_of_inRange (hi : inRange d.size i) :
    Function.update B d.size R i = B i :=
  Function.update_of_ne (inRange_iff.1 hi).2.ne _ _

/-- An appended node, whatever is secured there, takes nothing from what edges bring along. -/
theorem boundAlong_subset_append :
    d.boundAlong B source e ⊆ (d.append [n]).boundAlong (Function.update B d.size R) source e := by
  rintro r ⟨place, m, rfl, hm, hr⟩
  refine ⟨place, m, rfl, getElem?_append_singleton.2 (.inl hm), ?_⟩
  rwa [update_size_of_inRange (inRange_of_getElem? hm)]

namespace Secured

/-- **An edge may be led elsewhere** if it brings along what is secured there. -/
theorem withEdge (h : d.Secured registry B) (hedge : (source, e, a) ∈ d.edges)
    (hedit : d.withEdge source e b = .ok d')
    (hb : ∀ t, b = some t → RuleDiagram.inRange d.size t ∧ B t ⊆ d.boundAlong B source e) :
    d'.Secured registry B := by
  have hshapes := map_shape_withEdge hedge hedit
  -- The nodes are the old ones but for their targets, the edges are the old ones but for this one.
  refine ⟨h.toInRange.withEdge hedge hedit fun t ht => (hb t ht).1, fun n' hn' => ?_,
    fun place n' hn' => ?_, fun source' e' t ht => ?_⟩
  · obtain ⟨place, hplace⟩ := List.getElem?_of_mem hn'
    obtain ⟨n, hn, hshape⟩ := exists_getElem?_of_shapes hshapes.symm hplace
    exact (h.valid n (List.mem_of_getElem? hn)).of_shape hshape.symm
  · obtain ⟨n, hn, hshape⟩ := exists_getElem?_of_shapes hshapes.symm hn'
    exact Node.pattern_eq_of_shape hshape ▸ h.reads place n hn
  · rw [boundAlong_of_shapes hshapes]
    rw [mem_edges_withEdge hedge hedit] at ht
    split at ht
    · next hsame =>
      obtain ⟨rfl, rfl⟩ := hsame
      exact (hb t ht.symm).2
    · exact h.edges source' e' t ht

/-- Edges may be led elsewhere one after another. -/
theorem redirected {links : List (Option Int × Edge)} (h : d.Secured registry B)
    (hlinks : ∀ link ∈ links, ∃ a, (link.1, link.2, a) ∈ d.edges)
    (htarget : ∀ t, target = some t → RuleDiagram.inRange d.size t ∧
      ∀ link ∈ links, B t ⊆ d.boundAlong B link.1 link.2)
    (hedit : links.foldlM (fun d (source, e) => d.withEdge source e target) d = .ok d') :
    d'.Secured registry B := by
  -- Induction on the edges that are left.
  induction links generalizing d with
  | nil =>
    obtain rfl := Except.pure_eq_ok_iff.1 hedit
    exact h
  | cons link links ih =>
    obtain ⟨source, e⟩ := link
    rw [List.foldlM_cons, Except.bind_eq_ok_iff] at hedit
    obtain ⟨next, hnext, hedit⟩ := hedit
    obtain ⟨⟨a, hedge⟩, hrest⟩ := List.forall_mem_cons.1 hlinks
    have hsecured := h.withEdge hedge hnext fun t ht =>
      ⟨(htarget t ht).1, (htarget t ht).2 _ List.mem_cons_self⟩
    refine ih hsecured (present_withEdge hedge hnext hrest) (fun t ht => ?_) hedit
    rw [size_withEdge hedge hnext]
    refine ⟨(htarget t ht).1, fun l hl => ?_⟩
    rw [boundAlong_of_shapes (map_shape_withEdge hedge hnext)]
    exact (htarget t ht).2 l (List.mem_cons_of_mem _ hl)

/-- **A node may be appended** if its edges bring along what is secured where they lead, with the
registers that it may read. -/
theorem append (h : d.Secured registry B) (hn : n.Valid registry)
    (hrange : ∀ t ∈ n.targets, RuleDiagram.inRange d.size t)
    (hreads : ReadsWithin n.pattern.terms R)
    (hedges : ∀ e t, (e, some t) ∈ n.children →
      ∀ r ∈ B t, r ∈ R ∨ e = .onMatch ∧ .free r ∈ n.pattern.terms) :
    (d.append [n]).Secured registry (Function.update B d.size R) := by
  have hnew : Function.update B d.size R d.size = R := Function.update_self _ _ _
  refine ⟨h.toInRange.append fun m hm t ht => ?_, fun m hm => ?_, fun place m hm => ?_,
    fun source e t ht => ?_⟩
  · obtain rfl := List.mem_singleton.1 hm
    exact inRange_append (hrange t ht)
  · rcases List.mem_append.1 hm with hm | hm
    · exact h.valid m hm
    · obtain rfl := List.mem_singleton.1 hm
      exact hn
  · obtain hm | ⟨rfl, rfl⟩ := getElem?_append_singleton.1 hm
    · rw [update_size_of_inRange (inRange_of_getElem? hm)]
      exact h.reads place m hm
    · rw [hnew]
      exact hreads
  · obtain hedge | ⟨rfl, he⟩ := mem_edges_append_singleton.1 ht
    · rw [update_size_of_inRange (h.mem_edges hedge)]
      exact (h.edges source e t hedge).trans boundAlong_subset_append
    · rw [update_size_of_inRange (hrange t (Node.mem_targets.2 ⟨e, he⟩)),
        boundAlong_of_node (getElem?_append_singleton.2 (.inr ⟨rfl, rfl⟩)), hnew]
      exact hedges e t he

/-- **Nodes that are the same may be entered with the same registers**: those that are secured at
both. -/
theorem meet {k l : Nat} (h : d.Secured registry B) (hx : d.nodes[k]? = some x)
    (hy : d.nodes[l]? = some y) (hxy : Same x y) :
    d.Secured registry (Function.update B k (B k ∩ B l)) := by
  have hle (i : Int) : Function.update B k (B k ∩ B l) i ⊆ B i := by
    by_cases hi : i = k
    · rw [hi, Function.update_self]
      exact Set.inter_subset_left
    · rw [Function.update_of_ne hi]
  refine ⟨h.toInRange, h.valid, fun place n hn => ?_, fun source e t ht => (hle t).trans ?_⟩
  · by_cases hplace : place = k
    · subst hplace
      obtain rfl := Option.some_inj.1 (hx.symm.trans hn)
      rw [Function.update_self]
      refine (h.reads place x hx).inter ?_
      exact readsWithin_of_same (Node.forall₂_terms_of_same hxy) (h.reads l y hy)
    · rw [Function.update_of_ne (by exact_mod_cast hplace)]
      exact h.reads place n hn
  · intro r hr
    obtain ⟨place, n, rfl, hn, hbound⟩ := h.edges source e t ht hr
    refine ⟨place, n, rfl, hn, or_iff_not_imp_right.2 fun hlast => ?_⟩
    have hrB := hbound.resolve_right hlast
    by_cases hplace : place = k
    · -- The same edge leaves the other node, and brings the register along from there.
      subst hplace
      obtain rfl := Option.some_inj.1 (hx.symm.trans hn)
      rw [Function.update_self]
      refine ⟨hrB, ?_⟩
      have hedge : (some (l : Int), e, some t) ∈ d.edges := by
        rw [mem_edges_of_node hy, ← Node.children_eq_of_same hxy, ← mem_edges_of_node hx]
        exact ht
      have hother := h.edges _ e t hedge hr
      rw [boundAlong_of_node hy] at hother
      refine hother.resolve_right ?_
      rintro ⟨rfl, hfree⟩
      exact hlast ⟨rfl, free_mem_of_same (Node.forall₂_terms_of_same hxy.symm) hfree⟩
    · rwa [Function.update_of_ne (by exact_mod_cast hplace)]

/-- **A node may be removed** that only its own edges lead to. -/
theorem removeNode (h : d.Secured registry B) (hedit : d.removeNode place = .ok d') :
    d'.Secured registry fun j => {r | ∀ i : Int, i ≠ place → shiftIndex place i = j → r ∈ B i} := by
  obtain ⟨-, honly, -⟩ := removeNode_eq_ok_iff.1 hedit
  -- An edge of the edited diagram is one that leads from another node to another node.
  have hedge {source : Option Int} {e : Edge} {t : Int} (ht : (source, e, some t) ∈ d'.edges) :
      ∃ source' t', (source', e, some t') ∈ d.edges ∧ source' ≠ some (place : Int) ∧
        source = source'.map (shiftIndex place) ∧ t = shiftIndex place t' ∧ t' ≠ place := by
    obtain ⟨source', a', hedge, hsource, rfl, ha'⟩ := exists_edge_of_removed hedit ht
    obtain ⟨t', rfl, ht'⟩ := Option.map_eq_some_iff.1 ha'.symm
    refine ⟨source', t', hedge, hsource, rfl, ht'.symm, ?_⟩
    rintro rfl
    exact hsource (honly source' e hedge)
  refine ⟨inRange_of_mem_edges fun source e t ht => ?_, fun n' hn' => ?_, fun k' n' hn' => ?_,
    fun source e t ht r hr => ?_⟩
  · obtain ⟨source', t', hedge', -, -, rfl, hne⟩ := hedge ht
    obtain ⟨k, n, rfl, hn⟩ := exists_getElem?_of_inRange (h.mem_edges hedge')
    obtain ⟨k', hk', hn'⟩ := exists_getElem?_removed hedit hn (Int.ofNat_inj.not.1 hne)
    exact hk' ▸ inRange_of_getElem? hn'
  · obtain ⟨k', hk'⟩ := List.getElem?_of_mem hn'
    obtain ⟨k, n, -, -, hn, rfl⟩ := exists_getElem?_of_removed hedit hk'
    exact (h.valid n (List.mem_of_getElem? hn)).of_shape Node.shape_mapTargets
  · obtain ⟨k, n, hne, hk, hn, rfl⟩ := exists_getElem?_of_removed hedit hn'
    rw [Node.pattern_eq_of_shape Node.shape_mapTargets]
    refine (h.reads k n hn).mono fun r hr i hi hik => ?_
    obtain rfl := shiftIndex_inj hi (Int.ofNat_inj.not.2 hne) (hik.trans hk.symm)
    exact hr
  · obtain ⟨source', t', hedge', hsource, rfl, rfl, hne⟩ := hedge ht
    obtain ⟨k, n, rfl, hn, hbound⟩ := h.edges source' e t' hedge' (hr t' hne rfl)
    have hkne : k ≠ place := fun hk => hsource (hk ▸ rfl)
    obtain ⟨k', hk', hn'⟩ := exists_getElem?_removed hedit hn hkne
    refine ⟨k', _, congrArg some hk', hn', hbound.imp (fun hrB i hi hik => ?_) ?_⟩
    · obtain rfl := shiftIndex_inj hi (Int.ofNat_inj.not.2 hkne) (hik.trans hk'.symm)
      exact hrB
    · rw [Node.pattern_eq_of_shape Node.shape_mapTargets]
      exact id

end Secured

end Diagram

end RuleDiagram
