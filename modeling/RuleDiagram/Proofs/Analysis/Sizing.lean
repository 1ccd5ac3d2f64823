import RuleDiagram.Proofs.Analysis.Candidates
import RuleDiagram.Proofs.Mutation.Inverse
import RuleDiagram.Proofs.Mutation.Refusal

/-!
# The size-changing mutations on offer are those that can be applied

An analyzer proposes size-changing mutations by looking at the nodes, and offers those of them that
can be applied. In its own words it asks of a node what the mutation asks before its edit; that it
asks for no more is what makes the offer complete. Proposals of different nodes name different
nodes, so nothing is offered twice, and whether a combiner is asked for redirections makes no
difference.

## Main definitions

* `Mutation.anchored`: a mutation without the node that it ignores
* `Diagram.sizingProposals`: the size-changing mutations that a diagram suggests
* `Diagram.Exhausts`: mutations that are just the size-changing ones that can be applied
* `Analyzer.withoutCombiner`: an analyzer that is not asked for redirections

## Main results

* `Diagram.anchored_mem_sizingProposals`: all that can be applied is proposed
* `Diagram.nodup_sizingProposals`: nothing is proposed twice
* `Analyzer.sizeCandidates_exact`: what is on offer is what can be applied
-/

namespace RuleDiagram

variable {d d' : Diagram} {registry : Option Registry} {evaluations : List Evaluation}
  {m : Mutation} {a : Analyzer} {offers : SizeCandidates} {n : Node} {i : Nat} {s t : Int}
  {p : Pattern} {u v : Option Int}

/-! ## Mutations that name a node in vain -/

namespace Mutation

/-- The mutation without the node that it ignores: whatever node is named, it is the root edge that
is spliced. -/
def anchored : Mutation → Mutation
  | spliceEdge _ .root => spliceEdge none .root
  | m => m

theorem apply_anchored :
    m.anchored.apply registry d evaluations = m.apply registry d evaluations := by
  cases m with
  | spliceEdge n e => cases e <;> rfl
  | _ => rfl

/-- The node that a restructuring names. -/
def named? : Mutation → Option Int
  | spliceEdge n _ | collapsePassThrough n | duplicateNode n | mergeNodes n => n
  | _ => none

/-- **A restructuring fails on its own guards only.** -/
theorem edit_ok_or_invalid (hd : d.InRange) (hm : m.effect = .sizeChanging) :
    (∃ d', m.edit d evaluations = .ok d') ∨ ∃ r, m.edit d evaluations = .error (.invalid r) := by
  have horderly : Orderly (fun _ => False) (m.edit d evaluations) := by
    cases m with
    | spliceEdge n e => exact orderly_spliceEdge
    | collapsePassThrough n => exact orderly_collapsePassThrough
    | duplicateNode n => exact orderly_duplicateNode hd
    | mergeNodes n => exact orderly_mergeNodes hd
    | _ => cases hm
  generalize m.edit d evaluations = y at horderly
  cases horderly with
  | result d' => exact .inl ⟨d', rfl⟩
  | rejection _ => exact .inr ⟨_, rfl⟩
  | unwritten _ h => exact h.elim

end Mutation

/-! ## Proposals -/

namespace Diagram

/-- What the two targets of a branch suggest. -/
def targetProposals (d : Diagram) (i : Nat) (s t : Int) : List Mutation :=
  if s = t then if s = i then [] else [.duplicateNode (some (i : Int))]
  else if Same (d.node? s) (d.node? t) then [.mergeNodes (some (i : Int))] else []

/-- What a node suggests. -/
def nodeProposals (d : Diagram) (i : Nat) : Node → List Mutation
  | .leaf _ => []
  | .branch p u v =>
    [.spliceEdge (some (i : Int)) .onMatch, .spliceEdge (some (i : Int)) .onRefute] ++
      (if p.isPassThrough ∧ u = v then [.collapsePassThrough (some (i : Int))] else []) ++
      match u, v with
      | some s, some t => d.targetProposals i s t
      | _, _ => []

/-- The size-changing mutations that a diagram suggests. -/
def sizingProposals (d : Diagram) : List Mutation :=
  .spliceEdge none .root :: d.nodes.zipIdx.flatMap fun (n, i) => d.nodeProposals i n

theorem mem_sizingProposals : m ∈ d.sizingProposals ↔ m = .spliceEdge none .root ∨
    ∃ i n, d.nodes[i]? = some n ∧ m ∈ d.nodeProposals i n := by
  simp only [sizingProposals, List.mem_cons, List.mem_flatMap, Prod.exists,
    List.mem_zipIdx_iff_getElem?]
  exact or_congr_right exists_comm

/-- **All that can be applied is proposed.** -/
theorem anchored_mem_sizingProposals (hm : m.effect = .sizeChanging)
    (h : m.edit d evaluations = .ok d') : m.anchored ∈ d.sizingProposals := by
  rw [mem_sizingProposals]
  cases m with
  | spliceEdge n e =>
    obtain ⟨source, target, hn, hedge, -⟩ := Mutation.edit_spliceEdge_eq_ok_iff.1 h
    cases e with
    | root => exact .inl rfl
    | onMatch | onRefute =>
      obtain rfl := hn.resolve_left Edge.noConfusion
      obtain ⟨-, ⟨⟩, -⟩ | ⟨place, n, rfl, hn, he⟩ := mem_edges.1 hedge
      cases n with
      | leaf p => cases he
      | branch p u v => exact .inr ⟨place, _, hn, by simp [nodeProposals, Mutation.anchored]⟩
  | collapsePassThrough n =>
    obtain ⟨place, p, target, result, rfl, hn, hp, -⟩ :=
      Mutation.edit_collapsePassThrough_eq_ok_iff.1 h
    exact .inr ⟨place, _, hn, by simp [nodeProposals, Mutation.anchored, Pattern.isPassThrough, hp]⟩
  | duplicateNode n =>
    obtain ⟨place, p, child, x, rfl, hn, hne, -⟩ := Mutation.edit_duplicateNode_eq_ok_iff.1 h
    exact .inr ⟨place, _, hn, by simp [nodeProposals, Mutation.anchored, targetProposals, hne]⟩
  | mergeNodes n =>
    obtain ⟨place, p, kept, dropped, x, y, result, rfl, hn, hne, -, hx, hy, hxy, -⟩ :=
      Mutation.edit_mergeNodes_eq_ok_iff.1 h
    exact .inr ⟨place, _, hn,
      by simp [nodeProposals, Mutation.anchored, targetProposals, hne, hx, hy, hxy]⟩
  | _ => cases hm

/-! ### Nothing is proposed twice -/

theorem eq_of_mem_nodeProposals (h : m ∈ d.nodeProposals i n) :
    m = .spliceEdge (some (i : Int)) .onMatch ∨ m = .spliceEdge (some (i : Int)) .onRefute ∨
      m = .collapsePassThrough (some (i : Int)) ∨ m = .duplicateNode (some (i : Int)) ∨
      m = .mergeNodes (some (i : Int)) := by
  cases n with
  | leaf p => cases h
  | branch p u v =>
    -- The targets add one mutation at most, of one of two kinds.
    unfold nodeProposals targetProposals at h
    grind

theorem named_of_mem_nodeProposals (h : m ∈ d.nodeProposals i n) : m.named? = some (i : Int) := by
  rcases eq_of_mem_nodeProposals h with rfl | rfl | rfl | rfl | rfl <;> rfl

theorem nodup_nodeProposals : (d.nodeProposals i n).Nodup := by
  cases n with
  | leaf p => exact List.nodup_nil
  | branch p u v =>
    cases u <;> cases v <;> simp only [nodeProposals, targetProposals] <;> split_ifs <;> simp

/-- **Nothing is proposed twice**: different nodes suggest mutations that name different nodes. -/
theorem nodup_sizingProposals : d.sizingProposals.Nodup := by
  have hplaces : (d.nodes.zipIdx.map Prod.snd).Nodup := by
    rw [List.zipIdx_map_snd]
    exact List.nodup_range'
  refine List.nodup_cons.2 ⟨fun h => ?_, List.nodup_flatMap.2 ⟨fun x _ => nodup_nodeProposals, ?_⟩⟩
  · obtain ⟨⟨n, i⟩, -, h⟩ := List.mem_flatMap.1 h
    cases named_of_mem_nodeProposals h
  · refine (List.pairwise_map.1 hplaces).imp fun {x y} hne m hx hy => hne ?_
    have hsame := (named_of_mem_nodeProposals hx).symm.trans (named_of_mem_nodeProposals hy)
    exact Int.ofNat_inj.1 (Option.some_inj.1 hsame)

theorem effect_and_anchored_of_mem_sizingProposals (h : m ∈ d.sizingProposals) :
    m.effect = .sizeChanging ∧ m.anchored = m := by
  obtain rfl | ⟨i, n, -, h⟩ := mem_sizingProposals.1 h
  · exact ⟨rfl, rfl⟩
  · rcases eq_of_mem_nodeProposals h with rfl | rfl | rfl | rfl | rfl <;> exact ⟨rfl, rfl⟩

/-- **Mutations that are just the size-changing ones that can be applied**, each once: splices of
the root edge, which ignore the node they name, name none. -/
structure Exhausts (registry : Option Registry) (d : Diagram) (sizing : List Mutation) : Prop where
  nodup : sizing.Nodup
  sizeChanging : ∀ m ∈ sizing, m.effect = .sizeChanging ∧ m.anchored = m
  mem_iff : ∀ (m : Mutation) (evaluations : List Evaluation), m.effect = .sizeChanging →
    (m.anchored ∈ sizing ↔ ∃ d', m.apply registry d evaluations = .ok d')

end Diagram

/-! ## Offers -/

namespace Analyzer

/-- An analyzer that is not asked for redirections: no two targets of a branch are combined. -/
def withoutCombiner (a : Analyzer) : Analyzer := { a with combiner := fun _ _ _ => .ok false }

theorem keepApplicable_withoutCombiner {proposals : List Mutation} :
    a.withoutCombiner.keepApplicable d evaluations proposals =
      a.keepApplicable d evaluations proposals := by
  induction proposals with
  | nil => rfl
  | cons m rest ih =>
    rw [keepApplicable, keepApplicable, ih]
    rfl

/-- Where each proposal is applied or rejected, those are kept that are applied. -/
theorem exists_keepApplicable {proposals : List Mutation}
    (h : ∀ m ∈ proposals, ∃ keep, a.isApplicable d evaluations m = .ok keep) :
    ∃ kept, a.keepApplicable d evaluations proposals = .ok kept ∧ kept.Sublist proposals ∧
      ∀ m, m ∈ kept ↔ m ∈ proposals ∧ ∃ d', m.apply a.registry d evaluations = .ok d' := by
  -- Induction on the proposals: the first one is kept or dropped by whether it can be applied.
  induction proposals with
  | nil => exact ⟨[], rfl, List.Sublist.slnil, by simp⟩
  | cons m rest ih =>
    obtain ⟨⟨keep, hkeep⟩, hrest⟩ := List.forall_mem_cons.1 h
    obtain ⟨kept, hkept, hsublist, hmem⟩ := ih hrest
    have hstep : a.keepApplicable d evaluations (m :: rest) =
        .ok (if keep then m :: kept else kept) := by
      rw [keepApplicable, hkeep, hkept]
      rfl
    have happly : keep = true ↔ ∃ d', m.apply a.registry d evaluations = .ok d' := by
      rw [← isApplicable_eq_ok_true_iff, hkeep, Except.ok.injEq]
    cases keep with
    | false =>
      refine ⟨kept, hstep, hsublist.cons m, fun m' => (hmem m').trans ?_⟩
      refine ⟨fun h => ⟨List.mem_cons_of_mem m h.1, h.2⟩, fun ⟨hm', happlied⟩ => ?_⟩
      rcases List.mem_cons.1 hm' with rfl | hm'
      · exact nomatch happly.2 happlied
      · exact ⟨hm', happlied⟩
    | true =>
      refine ⟨m :: kept, hstep, hsublist.cons_cons m, fun m' => ?_⟩
      rw [List.mem_cons, List.mem_cons, or_and_right, hmem]
      refine or_congr_left (and_iff_left_of_imp ?_).symm
      rintro rfl
      exact happly.1 rfl

theorem sizing_targetCandidates (h : a.targetCandidates d i s t = .ok offers) :
    offers.sizing = d.targetProposals i s t := by
  unfold targetCandidates at h
  unfold Diagram.targetProposals
  split at h
  · next hst =>
    rw [if_pos hst]
    cases h
    rfl
  · next hst =>
    obtain ⟨x, hx, h⟩ := Except.bind_eq_ok_iff.1 h
    obtain ⟨y, hy, h⟩ := Except.bind_eq_ok_iff.1 h
    rw [Except.mapError_eq_ok_iff, Mutation.node_eq_ok_iff] at hx hy
    rw [if_neg hst, hx, hy]
    simp only [same_some_iff]
    split at h
    · next hsame =>
      rw [if_pos hsame]
      cases h
      rfl
    · next hdiffer =>
      obtain ⟨combine, -, h⟩ := Except.bind_eq_ok_iff.1 h
      rw [if_neg hdiffer]
      cases h
      rfl

theorem sizing_nodeCandidates (h : a.nodeCandidates d i n = .ok offers) :
    offers.sizing = d.nodeProposals i n := by
  cases n with
  | leaf p =>
    cases h
    rfl
  | branch p u v =>
    cases u with
    | none =>
      cases h
      rfl
    | some s =>
      cases v with
      | none =>
        cases h
        rfl
      | some t =>
        obtain ⟨targets, htargets, h⟩ := Except.bind_eq_ok_iff.1 h
        cases h
        rw [sizing_targetCandidates htargets]
        rfl

theorem map_sizing_of_mapM_nodeCandidates {nodes : List SizeCandidates}
    (h : (d.nodes.zipIdx.mapM fun (n, i) => a.nodeCandidates d i n) = .ok nodes) :
    d.nodes.zipIdx.map (fun (n, i) => d.nodeProposals i n) = nodes.map SizeCandidates.sizing := by
  rw [← List.forall₂_eq_eq_eq, List.forall₂_map_left_iff, List.forall₂_map_right_iff]
  exact (List.mapM_eq_ok_iff.1 h).imp fun x offers h => (sizing_nodeCandidates h).symm

/-- **What is on offer is what can be applied of the proposals**, whatever the combiner says. -/
theorem keepApplicable_of_sizeCandidates (h : a.sizeCandidates d = .ok offers) :
    a.keepApplicable d [] d.sizingProposals = .ok offers.sizing := by
  obtain ⟨nodes, hnodes, h⟩ := Except.bind_eq_ok_iff.1 h
  obtain ⟨kept, hkept, h⟩ := Except.bind_eq_ok_iff.1 h
  cases h
  rw [Diagram.sizingProposals, List.flatMap_def, map_sizing_of_mapM_nodeCandidates hnodes,
    ← List.flatMap_def]
  exact hkept

theorem exists_targetCandidates (hs : inRange d.size s) (ht : inRange d.size t)
    (hcombiner : ∃ b, a.combiner d s t = .ok b) :
    ∃ offers, a.targetCandidates d i s t = .ok offers := by
  obtain ⟨x, hx⟩ := Diagram.exists_node?_of_inRange hs
  obtain ⟨y, hy⟩ := Diagram.exists_node?_of_inRange ht
  obtain ⟨b, hb⟩ := hcombiner
  unfold targetCandidates
  rw [Mutation.node_eq_ok_iff.2 hx, Mutation.node_eq_ok_iff.2 hy, hb]
  split
  · exact ⟨_, rfl⟩
  · by_cases hsame : Same x y
    · exact ⟨_, if_pos hsame⟩
    · exact ⟨_, if_neg hsame⟩

theorem exists_nodeCandidates (hd : d.InRange) (hn : n ∈ d.nodes)
    (hcombiner : ∀ s t, inRange d.size s → inRange d.size t → ∃ b, a.combiner d s t = .ok b) :
    ∃ offers, a.nodeCandidates d i n = .ok offers := by
  cases n with
  | leaf p => exact ⟨_, rfl⟩
  | branch p u v =>
    cases u with
    | none => exact ⟨_, rfl⟩
    | some s =>
      cases v with
      | none => exact ⟨_, rfl⟩
      | some t =>
        have hs := hd.targets _ hn s (Node.mem_targets_branch.2 (.inl rfl))
        have ht := hd.targets _ hn t (Node.mem_targets_branch.2 (.inr rfl))
        obtain ⟨targets, htargets⟩ := exists_targetCandidates hs ht (hcombiner s t hs ht)
        exact ⟨_, Except.bind_eq_ok_iff.2 ⟨targets, htargets, rfl⟩⟩

/-- The proposals for a valid diagram that can be applied are all mutations that can be. -/
theorem exists_exhausts (hd : d.fault? a.registry = none) :
    ∃ kept, a.keepApplicable d [] d.sizingProposals = .ok kept ∧ d.Exhausts a.registry kept := by
  have hrange := (Diagram.wellFormed_of_fault?_eq_none hd).allInRange
  have heffect {m : Mutation} (hm : m ∈ d.sizingProposals) : m.effect = .sizeChanging :=
    (Diagram.effect_and_anchored_of_mem_sizingProposals hm).1
  -- A proposal is applied, or rejected by a guard; no other fault breaks the analysis off.
  have happlicable : ∀ m ∈ d.sizingProposals, ∃ keep, a.isApplicable d [] m = .ok keep := by
    intro m hm
    unfold isApplicable
    rw [Mutation.apply_eq_edit hd (heffect hm)]
    rcases Mutation.edit_ok_or_invalid hrange (heffect hm) with ⟨d', h⟩ | ⟨r, h⟩ <;> rw [h]
    · exact ⟨true, rfl⟩
    · exact ⟨false, rfl⟩
  obtain ⟨kept, hkept, hsublist, hmem⟩ := exists_keepApplicable happlicable
  refine ⟨kept, hkept, Diagram.nodup_sizingProposals.sublist hsublist,
    fun m hm => Diagram.effect_and_anchored_of_mem_sizingProposals (hsublist.subset hm),
    fun m evaluations hm => ?_⟩
  have hneutral : m.effect ≠ .neutral := fun h => by cases hm.symm.trans h
  have hcongr : m.apply a.registry d [] = m.apply a.registry d evaluations :=
    Mutation.apply_congr hneutral
  rw [hmem, Mutation.apply_anchored, hcongr]
  refine and_iff_right_of_imp ?_
  rintro ⟨d', hd'⟩
  exact Diagram.anchored_mem_sizingProposals hm (Mutation.apply_eq_ok_iff.1 hd').2.1

/-- On a valid diagram, an analyzer whose combiner answers makes an offer. -/
theorem exists_sizeCandidates (hd : d.fault? a.registry = none)
    (hcombiner : ∀ s t, inRange d.size s → inRange d.size t → ∃ b, a.combiner d s t = .ok b) :
    ∃ offers, a.sizeCandidates d = .ok offers := by
  have hrange := (Diagram.wellFormed_of_fault?_eq_none hd).allInRange
  have hstep : ∀ x ∈ d.nodes.zipIdx, ∃ offers, a.nodeCandidates d x.2 x.1 = .ok offers :=
    fun x hx => exists_nodeCandidates hrange (List.fst_mem_of_mem_zipIdx hx) hcombiner
  obtain ⟨nodes, hnodes⟩ := List.exists_mapM_eq_ok hstep
  obtain ⟨kept, hkept, -⟩ := exists_exhausts hd
  rw [Diagram.sizingProposals, List.flatMap_def, map_sizing_of_mapM_nodeCandidates hnodes,
    ← List.flatMap_def] at hkept
  exact ⟨_, Except.bind_eq_ok_iff.2 ⟨nodes, hnodes, Except.bind_eq_ok_iff.2 ⟨kept, hkept, rfl⟩⟩⟩

/-- **What is on offer is what can be applied**, each mutation once: an analyzer that is asked for
size-changing mutations of a valid diagram offers them, one that is also asked for redirections
offers the same ones, and does so if its combiner answers. Validation of the results plays no
part. -/
theorem sizeCandidates_exact (hd : d.validate a.registry = .ok d) :
    ∃ sizing, a.withoutCombiner.sizeCandidates d = .ok ⟨sizing, []⟩ ∧
      d.Exhausts a.registry sizing ∧
      (∀ offers, a.sizeCandidates d = .ok offers → offers.sizing = sizing) ∧
      ((∀ s t, inRange d.size s → inRange d.size t → ∃ b, a.combiner d s t = .ok b) →
        ∃ offers, a.sizeCandidates d = .ok offers) ∧
      ∀ (m : Mutation) (evaluations : List Evaluation), m.effect = .sizeChanging →
        m.apply a.registry d evaluations = m.edit d evaluations ∧
          ((∃ d', m.edit d evaluations = .ok d') ∨
            ∃ r, m.edit d evaluations = .error (.invalid r)) := by
  have hfault := (Diagram.validate_eq_ok_iff.1 hd).1
  have hrange := (Diagram.wellFormed_of_fault?_eq_none hfault).allInRange
  obtain ⟨sizing, hsizing, hexhausts⟩ := exists_exhausts hfault
  -- What is kept of the proposals does not depend on the combiner.
  have hunique {offers : SizeCandidates} (h : a.sizeCandidates d = .ok offers) :
      offers.sizing = sizing :=
    Except.ok.inj ((keepApplicable_of_sizeCandidates h).symm.trans hsizing)
  have hquiet : a.withoutCombiner.sizeCandidates d = .ok ⟨sizing, []⟩ := by
    obtain ⟨⟨sizing', redirections⟩, h⟩ := exists_sizeCandidates (a := a.withoutCombiner) hfault
      fun _ _ _ _ => ⟨false, rfl⟩
    have hsame := (keepApplicable_of_sizeCandidates h).symm.trans
      (keepApplicable_withoutCombiner.trans hsizing)
    have hnone : redirections = [] := by
      refine List.eq_nil_iff_forall_not_mem.2 fun m hm => ?_
      obtain ⟨i, p, t, f, -, -, hcombine, -⟩ := (mem_sizeCandidates h).2 m hm
      cases hcombine
    obtain rfl : sizing' = sizing := Except.ok.inj hsame
    rw [h, hnone]
  refine ⟨sizing, hquiet, hexhausts, fun offers h => hunique h, exists_sizeCandidates hfault,
    fun m evaluations hm => ⟨Mutation.apply_eq_edit hfault hm, ?_⟩⟩
  exact Mutation.edit_ok_or_invalid hrange hm

end Analyzer

namespace Roundabout

/-- All edges of the roundabout can be spliced, and the branch that leads back to the root both ways
can be taken out or given a copy of the root. -/
def sizing : List Mutation :=
  [.spliceEdge none .root, .spliceEdge (some 0) .onMatch, .spliceEdge (some 0) .onRefute,
    .spliceEdge (some 1) .onMatch, .spliceEdge (some 1) .onRefute, .collapsePassThrough (some 1),
    .duplicateNode (some 1)]

/-- The offer for the roundabout is complete. -/
theorem exhausts_diagram : diagram.validate none = .ok diagram ∧
    (Analyzer.standard none).withoutCombiner.sizeCandidates diagram = .ok ⟨sizing, []⟩ ∧
    diagram.Exhausts none sizing := by
  have hvalid : diagram.validate (Analyzer.standard none).registry = .ok diagram := rfl
  have hoffer : (Analyzer.standard none).withoutCombiner.sizeCandidates diagram =
      .ok ⟨sizing, []⟩ := rfl
  obtain ⟨found, hfound, hexhausts, -⟩ := Analyzer.sizeCandidates_exact hvalid
  cases hfound.symm.trans hoffer
  exact ⟨hvalid, hoffer, hexhausts⟩

end Roundabout

end RuleDiagram
