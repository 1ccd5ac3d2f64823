import RuleDiagram.Proofs.Mutation.Restructuring
import RuleDiagram.Proofs.Run.Detour

/-!
# What pass-through branches cost

A spliced branch is a detour on the way to the target of the edge that it was spliced into, and a
collapsed branch was one. So a collapsed diagram takes no more rounds than before: a limit within
which an evaluation ended is enough for it. A spliced diagram takes no fewer rounds, and at most
twice as many. The delay is not a constant, as a snapshot may cross a spliced edge on a cycle time
after time. That no round is added to the double is due to the one edge that leads to the branch:
if it is the root edge, only the first round is delayed, and otherwise the root is as early as
before.

## Main results

* `Mutation.bypass_splice`, `Mutation.bypass_collapse`: the detours of both mutations
* `Mutation.roundCost_of_passThrough`: the rounds before and after
-/

namespace RuleDiagram

variable {d d' result : Diagram} {registry : Option Registry} {facts : List Fact} {place : ℕ}
  {p : Pattern} {source target a : Option Int} {e : Edge} {k r : ℕ}

namespace Mutation

/-- The edges of a diagram have no indices that the removal of an appended node would lower. -/
theorem map_shiftIndex_size (hd : d.InRange) (hedge : (source, e, a) ∈ d.edges) :
    source.map (Diagram.shiftIndex d.size) = source ∧ a.map (Diagram.shiftIndex d.size) = a := by
  constructor
  · obtain ⟨rfl, -⟩ | ⟨k, n, rfl, hn, -⟩ := Diagram.mem_edges.1 hedge
    · rfl
    · exact congrArg some (Diagram.shiftIndex_of_inRange (Diagram.inRange_of_getElem? hn))
  · cases a with
    | none => rfl
    | some i => exact congrArg some (Diagram.shiftIndex_of_inRange (hd.mem_edges hedge))

section Splice

variable {source' b : Option Int} {e' : Edge} (hd : d.InRange)
  (hedge : (source, e, target) ∈ d.edges)
  (h : (d.append [.branch .passThrough target target]).withEdge source e (some (d.size : Int)) =
    .ok d')
include hd hedge h

/-- The edge leads to the spliced branch in place of its target, and all others lead where they
did. -/
theorem mem_edges_iff_spliced (hsource : source' ≠ some (d.size : Int)) :
    (source', e', b) ∈ d.edges ↔ ∃ a, (source', e', a) ∈ d'.edges ∧
      b = if a = some (d.size : Int) then target else a := by
  have hnot (a : Option Int) : ¬ (source' = some (d.size : Int) ∧
      (e', a) ∈ (Node.branch .passThrough target target).children) := fun h => hsource h.1
  simp only [Diagram.mem_edges_withEdge (mem_edges_append hedge) h,
    Diagram.mem_edges_append_singleton, or_iff_left (hnot _)]
  by_cases hsame : source' = source ∧ e' = e
  · obtain ⟨rfl, rfl⟩ := hsame
    simp only [and_self, if_true, exists_eq_left]
    exact ⟨fun hb => Diagram.eq_of_mem_edges hb hedge, fun hb => hb ▸ hedge⟩
  · simp only [if_neg hsame]
    constructor
    · exact fun hb => ⟨b, hb, (if_neg (hd.target_ne_size hb)).symm⟩
    · rintro ⟨a, ha, rfl⟩
      rwa [if_neg (hd.target_ne_size ha)]

/-- Only the edge that it was spliced into leads to a spliced branch. -/
theorem eq_of_edge_to_spliced (hedge' : (source', e', some (d.size : Int)) ∈ d'.edges) :
    source' = source := by
  rw [Diagram.mem_edges_withEdge (mem_edges_append hedge) h] at hedge'
  split at hedge'
  · next hsame => exact hsame.1
  · rcases Diagram.mem_edges_append_singleton.1 hedge' with hedge' | ⟨-, he⟩
    · exact absurd rfl (hd.target_ne_size hedge')
    · have htarget : some (d.size : Int) = target :=
        (Node.mem_children_branch.1 he).elim And.right And.right
      exact absurd htarget.symm (hd.target_ne_size hedge)

/-- **A spliced branch is a detour** on the way to the target of its edge. -/
theorem bypass_splice : d'.Bypass d d.size target := by
  have hgrown : (source, e, target) ∈ (d.append [.branch .passThrough target target]).edges :=
    mem_edges_append hedge
  have hlast : (d.append [.branch .passThrough target target]).nodes[d.size]? =
      some (.branch .passThrough target target) :=
    Diagram.getElem?_append_singleton.2 (.inr ⟨rfl, rfl⟩)
  refine ⟨⟨.passThrough, ?_, rfl⟩, hd.target_ne_size hedge, fun {k n} hn hne => ?_,
    fun {source' e' a} ha hsource => ?_, fun {source' e' b} hb => ?_⟩
  · -- The edge does not leave the branch itself.
    rw [← Diagram.node?_natCast] at hlast ⊢
    exact (Diagram.node?_withEdge_of_ne hgrown h (Diagram.inRange_of_getElem?
      (Diagram.node?_natCast _ ▸ hlast)) (source_ne_size hedge)).trans hlast
  · obtain ⟨n', hn', hshape⟩ :=
      Diagram.exists_getElem?_of_shapes (Diagram.map_shape_withEdge hgrown h).symm hn
    have hstays := (Diagram.getElem?_append_singleton.1 hn').resolve_right fun hk => hne hk.1
    have hk := Diagram.shiftIndex_of_inRange (Diagram.inRange_of_getElem? hstays)
    exact ⟨k, n', hk, hstays, hshape⟩
  · have hb := (mem_edges_iff_spliced hd hedge h hsource).2 ⟨a, ha, rfl⟩
    obtain ⟨hsame, hsame'⟩ := map_shiftIndex_size hd hb
    rw [hsame, Diagram.bypassed, hsame']
    exact hb
  · obtain ⟨a, ha, hcases⟩ := (mem_edges_iff_spliced hd hedge h (source_ne_size hb)).1 hb
    obtain ⟨hsame, hsame'⟩ := map_shiftIndex_size hd hb
    exact ⟨source', a, ha, source_ne_size hb, hsame.symm, by
      rw [Diagram.bypassed, ← hcases, hsame']⟩

end Splice

section Collapse

variable (hresult : ((d.parents (some (place : Int))).filter fun (source, _) =>
  decide (source ≠ some (place : Int))).foldlM
    (fun d (source, e) => d.withEdge source e target) d = .ok result)
include hresult

/-- Before a collapsed branch is removed, the edges of other nodes that led to it lead to its
target, and all others lead where they did. -/
theorem mem_edges_iff_collapsed (hsource : source ≠ some (place : Int)) :
    (source, e, a) ∈ result.edges ↔ ∃ b, (source, e, b) ∈ d.edges ∧
      a = if b = some (place : Int) then target else b := by
  rw [Diagram.mem_edges_redirected
    (fun link hlink => ⟨_, (mem_parents_filter.1 hlink).1⟩) hresult]
  split
  · next hlink =>
    have hlink := (mem_parents_filter.1 hlink).1
    constructor
    · exact fun ha => ⟨_, hlink, ha.trans (if_pos rfl).symm⟩
    · rintro ⟨b, hb, rfl⟩
      rw [if_pos (Diagram.eq_of_mem_edges hb hlink)]
  · next hlink =>
    have hne {b : Option Int} (hb : (source, e, b) ∈ d.edges) : b ≠ some (place : Int) :=
      fun hplace => hlink (mem_parents_filter.2 ⟨hplace ▸ hb, hsource⟩)
    constructor
    · exact fun ha => ⟨a, ha, (if_neg (hne ha)).symm⟩
    · rintro ⟨b, hb, rfl⟩
      rwa [if_neg (hne hb)]

/-- **A branch that is collapsed was a detour.** -/
theorem bypass_collapse (hn : d.nodes[place]? = some (.branch p target target))
    (hp : p.predicate = none) (hloop : target ≠ some (place : Int))
    (h : result.removeNode place = .ok d') : d.Bypass d' place target := by
  have hshapes : result.nodes.map Node.shape = d.nodes.map Node.shape :=
    Diagram.map_shape_redirected (fun link hlink => ⟨_, (mem_parents_filter.1 hlink).1⟩) hresult
  refine ⟨⟨p, hn, hp⟩, hloop, fun {k n} hk hne => ?_, fun {source e b} hedge hsource => ?_,
    fun {source e a} hedge => ?_⟩
  · obtain ⟨m, hm, hshape⟩ := Diagram.exists_getElem?_of_shapes hshapes hk
    obtain ⟨k', hk', hn'⟩ := Diagram.exists_getElem?_removed h hm hne
    exact ⟨k', _, hk', hn', Node.shape_mapTargets.trans hshape⟩
  · have ha := (mem_edges_iff_collapsed hresult hsource).2 ⟨b, hedge, rfl⟩
    exact Diagram.mem_edges_removed h ha hsource
  · obtain ⟨source', a', hedge', hsource', rfl, rfl⟩ := Diagram.exists_edge_of_removed h hedge
    obtain ⟨b, hb, rfl⟩ := (mem_edges_iff_collapsed hresult hsource').1 hedge'
    exact ⟨source', b, hb, hsource', rfl, rfl⟩

end Collapse

/-! ## The rounds before and after -/

/-- A spliced diagram takes at least as many rounds, and at most twice as many. -/
theorem roundCost_splice {n : Option Int} {evaluations : List Evaluation} (hd : d.WellFormed)
    (h : (spliceEdge n e).apply registry d evaluations = .ok d')
    (hr : IsLeast {k | d.Stable facts k} r) :
    ∃ r', d'.TakesRounds facts r' ∧ r ≤ r' ∧ r' ≤ 2 * r := by
  obtain ⟨-, hedit, hfault⟩ := apply_eq_ok_iff.1 h
  have hd' := Diagram.wellFormed_of_fault?_eq_none hfault
  obtain ⟨source, target, -, hedge, hedit⟩ := edit_spliceEdge_eq_ok_iff.1 hedit
  have hbypass := bypass_splice hd.allInRange hedge hedit
  obtain ⟨r', hr'⟩ := hd'.exists_isLeast_stable facts
  refine ⟨r', Diagram.takesRounds_of_isLeast (hd'.unhindered facts) hr', ?_, ?_⟩
  · exact hr.2 (hbypass.stable_without hd' hd hr'.1)
  · refine hr'.2 (hbypass.stable_with hd' hd (fun hroot source' e' hedge' => ?_) hr.1)
    -- The edge is the root edge, and no other leads to the branch.
    have hrootEdge := Diagram.mem_edges.2 (.inl ⟨rfl, rfl, congrArg some hroot.symm⟩)
    have hnone := eq_of_edge_to_spliced hd.allInRange hedge hedit hrootEdge
    exact (eq_of_edge_to_spliced hd.allInRange hedge hedit hedge').trans hnone.symm

/-- A collapsed diagram takes no more rounds. -/
theorem roundCost_collapse {n : Option Int} {evaluations : List Evaluation} (hd : d.WellFormed)
    (h : (collapsePassThrough n).apply registry d evaluations = .ok d')
    (hr : IsLeast {k | d.Stable facts k} r) : ∃ r', d'.TakesRounds facts r' ∧ r' ≤ r := by
  obtain ⟨-, hedit, hfault⟩ := apply_eq_ok_iff.1 h
  have hd' := Diagram.wellFormed_of_fault?_eq_none hfault
  obtain ⟨place, p, target, result, -, hn, hp, hloop, -, hresult, hedit⟩ :=
    edit_collapsePassThrough_eq_ok_iff.1 hedit
  have hbypass := bypass_collapse hresult hn hp hloop hedit
  obtain ⟨r', hr'⟩ := hd'.exists_isLeast_stable facts
  exact ⟨r', Diagram.takesRounds_of_isLeast (hd'.unhindered facts) hr',
    hr'.2 (hbypass.stable_without hd hd' hr.1)⟩

/-- **What pass-through branches cost**: on all facts, a diagram takes a number of rounds; whatever
edge is spliced, the result takes no fewer and at most twice as many, so that an evaluation that
ended can reach its limit only if that is below twice the rounds; and whatever branch is collapsed,
the result takes no more, so that an evaluation that ended still does. -/
theorem roundCost_of_passThrough (hd : d.validate registry = .ok d) (facts : List Fact) :
    ∃ r, d.TakesRounds facts r ∧
      (∀ (registry' : Option Registry) (evaluations : List Evaluation) n e d',
        (spliceEdge n e).apply registry' d evaluations = .ok d' →
        ∃ r', d'.TakesRounds facts r' ∧ r ≤ r' ∧ r' ≤ 2 * r ∧
          ∀ limit ev f, d.evaluate facts limit = .ok ev → d'.evaluate facts limit = .error f →
            f = .limitReached limit ∧ limit.rounds < 2 * r) ∧
      ∀ (registry' : Option Registry) (evaluations : List Evaluation) n d',
        (collapsePassThrough n).apply registry' d evaluations = .ok d' →
        ∃ r', d'.TakesRounds facts r' ∧ r' ≤ r ∧
          ∀ limit ev, d.evaluate facts limit = .ok ev →
            ∃ ev', d'.evaluate facts limit = .ok ev' := by
  have hwell := Diagram.wellFormed_of_fault?_eq_none (Diagram.validate_eq_ok_iff.1 hd).1
  -- The number is settled before any edit: the first of the rounds that bring all.
  obtain ⟨r, hr⟩ := hwell.exists_isLeast_stable facts
  have hrounds := Diagram.takesRounds_of_isLeast (hwell.unhindered facts) hr
  refine ⟨r, hrounds, fun registry' evaluations n e d' h => ?_,
    fun registry' evaluations n d' h => ?_⟩
  · obtain ⟨r', hr', hge, hle⟩ := roundCost_splice hwell h hr
    refine ⟨r', hr', hge, hle, fun limit ev f _ hf => ?_⟩
    obtain ⟨hlimit, hlt⟩ := hr'.limitReached_of_error hf
    exact ⟨hlimit, hlt.trans_le hle⟩
  · obtain ⟨r', hr', hle⟩ := roundCost_collapse hwell h hr
    refine ⟨r', hr', hle, fun limit ev hev => ?_⟩
    obtain ⟨ev', hev', -⟩ := (hr' limit).1 (hle.trans (hrounds.le_of_ok hev))
    exact ⟨ev', hev'⟩

end Mutation

/-- With a pass-through branch on its way back the cycle takes more rounds, and again fewer once the
branch is collapsed. -/
theorem Reachability.roundCost_circle : diagram.validate none = .ok diagram ∧
    ∃ r spliced s collapsed c, diagram.TakesRounds circle r ∧
      (Mutation.spliceEdge (some 4) .onMatch).apply none diagram [] = .ok spliced ∧
      spliced.TakesRounds circle s ∧ r < s ∧ s ≤ 2 * r ∧
      (Mutation.collapsePassThrough (some 5)).apply none spliced [] = .ok collapsed ∧
      collapsed.TakesRounds circle c ∧ c < s := by
  have hvalid : diagram.validate none = .ok diagram := rfl
  have hruns : (diagram.evaluate circle .standard).toOption.any fun ev =>
      ((Mutation.spliceEdge (some 4) .onMatch).apply none diagram []).toOption.any fun spliced =>
        (spliced.evaluate circle .standard).toOption.any fun ev' =>
          ((Mutation.collapsePassThrough (some 5)).apply none spliced []).toOption.any
            fun collapsed => (collapsed.evaluate circle .standard).toOption.any fun ev'' =>
              decide (ev.rounds < ev'.rounds ∧ ev''.rounds < ev'.rounds) := by
    decide
  obtain ⟨ev, hev, hruns⟩ := Except.exists_of_any_toOption hruns
  obtain ⟨spliced, hsplice, hruns⟩ := Except.exists_of_any_toOption hruns
  obtain ⟨ev', hev', hruns⟩ := Except.exists_of_any_toOption hruns
  obtain ⟨collapsed, hcollapse, hruns⟩ := Except.exists_of_any_toOption hruns
  obtain ⟨ev'', hev'', hruns⟩ := Except.exists_of_any_toOption hruns
  have hvalid' : spliced.validate none = .ok spliced :=
    Diagram.validate_eq_ok_iff.2 ⟨(Mutation.apply_eq_ok_iff.1 hsplice).2.2, rfl⟩
  -- Both halves of the result, at the diagram and at the spliced one.
  obtain ⟨r, hr, hspliced, -⟩ := Mutation.roundCost_of_passThrough hvalid circle
  obtain ⟨s, hs, -, hle, -⟩ := hspliced none [] _ _ _ hsplice
  obtain ⟨_, -, -, hcollapsed⟩ := Mutation.roundCost_of_passThrough hvalid' circle
  obtain ⟨c, hc, -, -⟩ := hcollapsed none [] _ _ hcollapse
  have hrounds := of_decide_eq_true hruns
  rw [hr.rounds_eq hev, hs.rounds_eq hev', hc.rounds_eq hev''] at hrounds
  exact ⟨hvalid, r, spliced, s, collapsed, c, hr, hsplice, hs, hrounds.1, hle, hcollapse, hc,
    hrounds.2⟩

end RuleDiagram
