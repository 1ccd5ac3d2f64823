import RuleDiagram.Analysis.Candidates
import RuleDiagram.Proofs.Diagram.WellFormed
import RuleDiagram.Proofs.Mutation.Restructuring

/-!
# Which mutations on offer can be applied

All mutations on offer have been tried, but for the redirections that come with the size-changing
ones: where the combiner accepts the two targets of a branch, its refute edge is offered the target
of its match edge, untried. Such a redirection leads to an existing node and changes no pattern, so
that one thing alone can be wrong with the redirected diagram: the refute edge does not bind what
the match edge does, and some reference may now read a register that is not bound on every way to
it.

## Main definitions

* `Analyzer.Redirection`: the redirections that are offered untried

## Main results

* `Mutation.apply_of_apply_nil`: what needs no evaluations to be applied does so with any
* `Analyzer.apply_or_redirection_of_mem_candidates`: a mutation on offer can be applied, or it is a
  redirection after which a reference is not bound
* `Diamond.not_forall_candidates_apply`: a redirection on offer that cannot be applied
-/

namespace RuleDiagram

variable {d d' : Diagram} {registry : Option Registry} {evaluations given : List Evaluation}
  {m : Mutation} {a : Analyzer} {examples : List Example}

namespace Mutation

/-! ## Mutations that are not judged by evaluations -/

/-- An edit that is not neutral does not look at the evaluations. -/
theorem edit_congr (hm : m.effect ≠ .neutral) : m.edit d evaluations = m.edit d given := by
  cases m <;> first | rfl | exact absurd rfl hm

theorem apply_congr (hm : m.effect ≠ .neutral) :
    m.apply registry d evaluations = m.apply registry d given := by
  have hneutral : decide (m.effect = .neutral) = false := decide_eq_false hm
  have hedit : m.edit d evaluations = m.edit d given := edit_congr hm
  simp only [apply, hneutral, Bool.false_and, hedit]

/-- What can be applied without evaluations can be applied with any. -/
theorem apply_of_apply_nil (h : m.apply registry d [] = .ok d') :
    m.apply registry d given = .ok d' := by
  have hm : m.effect ≠ .neutral := fun hm => (apply_eq_ok_iff.1 h).1 hm rfl
  exact (apply_congr hm).trans h

/-- An edit that is not neutral is judged by its result alone. -/
theorem apply_eq_of_edit {f : Fault} (hm : m.effect ≠ .neutral)
    (hedit : m.edit d evaluations = .ok d') (hf : d'.fault? registry = some f) :
    m.apply registry d evaluations = .error (.invalid (.malformed f)) := by
  have hneutral : decide (m.effect = .neutral) = false := decide_eq_false hm
  simp only [apply, hneutral, Bool.false_and, rejectIf, Bool.false_eq_true, if_false, hedit, hf,
    reject, Reason.message, bind, Except.bind]

/-- A redirection leads the refute edge of a branch to the target of its match edge. -/
theorem edit_redirectEdge {i : Nat} {p : Pattern} {t : Int} {f : Option Int}
    (hn : d.nodes[i]? = some (.branch p (some t) f)) (ht : inRange d.size t) :
    (redirectEdge (some (i : Int)) .onRefute (some t)).edit d evaluations =
      .ok (d.setNode i (.branch p (some t) (some t))) := by
  have hbranch : findBranch d (some (i : Int)) = .ok (i, p, some t, f) :=
    findBranch_eq_ok_iff.2 ⟨rfl, hn⟩
  have hedge : d.withEdge (some (i : Int)) .onRefute (some t) =
      .ok (d.setNode i (.branch p (some t) (some t))) :=
    (Diagram.withEdge_eq_ok_iff Edge.noConfusion).2 ⟨_, _, hn, rfl, rfl⟩
  simp only [edit, ht, Bool.not_true, rejectIf, Bool.false_eq_true, if_false, hbranch, hedge, step,
    Except.mapError]
  rfl

/-- **After such a redirection nothing but a reference can be at fault**: it leads to a node, and no
pattern changes. -/
theorem apply_redirectEdge {i : Nat} {p : Pattern} {t : Int} {f : Option Int}
    (hd : d.fault? registry = none) (hn : d.nodes[i]? = some (.branch p (some t) f)) :
    (∃ d', (redirectEdge (some (i : Int)) .onRefute (some t)).apply registry d evaluations =
        .ok d') ∨
      ∃ j found, (redirectEdge (some (i : Int)) .onRefute (some t)).apply registry d evaluations =
        .error (.invalid (.malformed ⟨some j, .unboundReference found⟩)) := by
  obtain ⟨hne, hroot, hnodes, -⟩ := Diagram.fault?_eq_none_iff.1 hd
  obtain ⟨htargets, hterms, hshape⟩ := Node.fault?_eq_none_iff.1 (hnodes _ (List.mem_of_getElem? hn))
  have ht : inRange d.size t := htargets t (Node.mem_targets_branch.2 (.inl rfl))
  have hedit : (redirectEdge (some (i : Int)) .onRefute (some t)).edit d evaluations =
      .ok (d.setNode i (.branch p (some t) (some t))) := edit_redirectEdge hn ht
  generalize hredirected : d.setNode i (.branch p (some t) (some t)) = redirected at hedit
  have hsize : redirected.size = d.size := hredirected ▸ Diagram.size_setNode
  -- All nodes are as before, but for one whose edges both lead to a node now.
  have hfaultless : ∀ n ∈ redirected.nodes, n.fault? registry redirected.size = none := by
    intro n hmem
    rw [hsize]
    rcases List.mem_or_eq_of_mem_set (hredirected ▸ hmem) with hmem | rfl
    · exact hnodes n hmem
    · refine Node.fault?_eq_none_iff.2 ⟨fun u hu => ?_, hterms, hshape⟩
      rcases Node.mem_targets_branch.1 hu with hu | hu <;> exact Option.some_inj.1 hu ▸ ht
  cases hfault : redirected.fault? registry with
  | none => exact .inl ⟨redirected, apply_eq_ok_iff.2 ⟨fun h => (by cases h), hedit, hfault⟩⟩
  | some fault =>
    have hnonempty : redirected.nodes ≠ [] := by
      rw [← hredirected]
      exact fun hnil => hne ((List.set_eq_nil_iff _ _).1 hnil)
    have hrootRange : inRange redirected.size redirected.root := by
      rw [hsize, ← hredirected]
      exact hroot
    obtain ⟨j, found, rfl⟩ :=
      Diagram.exists_unboundReference hnonempty hrootRange hfaultless hfault
    exact .inr ⟨j, found, apply_eq_of_edit (fun h => by cases h) hedit hfault⟩

end Mutation

/-! ## Where the mutations on offer come from -/

/-- All moves that are found are new ones that can be applied, or have been found before. -/
theorem forall_mem_of_movesFrom {σ ε : Type} {draw : σ → Except ε (Option Mutation × σ)}
    {isApplicable : Mutation → Except ε Bool} {P : Mutation → Prop}
    (hP : ∀ m, isApplicable m = .ok true → P m) {wanted attempts : Nat}
    {found moves : List Mutation} {s s' : σ} (hfound : ∀ m ∈ found, P m)
    (h : movesFrom draw isApplicable wanted attempts found s = .ok (moves, s')) :
    ∀ m ∈ moves, P m := by
  -- Induction on the attempts that are left.
  induction attempts generalizing found s with
  | zero =>
    cases h
    exact hfound
  | succ attempts ih =>
    unfold movesFrom at h
    split at h
    · cases h
      exact hfound
    · obtain ⟨⟨move, next⟩, -, h⟩ := Except.bind_eq_ok_iff.1 h
      cases move with
      | none => exact ih hfound h
      | some m =>
        -- The move is kept only if it is new and can be applied.
        have hkept (isNew : Bool) (hnew : isNew = true → P m) :
            ∀ m' ∈ if isNew then found ++ [m] else found, P m' := by
          cases isNew with
          | false => exact hfound
          | true => exact List.forall_mem_append.2 ⟨hfound, List.forall_mem_singleton.2 (hnew rfl)⟩
        dsimp only at h
        split at h
        · exact ih (hkept false Bool.noConfusion) h
        · obtain ⟨isNew, hnew, h⟩ := Except.bind_eq_ok_iff.1 h
          exact ih (hkept isNew fun htrue => hP m (htrue ▸ hnew)) h

/-- Each graft on offer is what some attempt has brought. -/
theorem exists_attempt_of_mem_graftsFor {ε : Type} {attempt : Nat → Except ε (Option Mutation)}
    {budget : Nat} {places : List Nat} {grafts : List Mutation}
    (h : graftsFor attempt budget places = .ok grafts) (hm : m ∈ grafts) :
    ∃ place, attempt place = .ok (some m) := by
  induction places generalizing budget grafts with
  | nil =>
    cases budget <;> cases h <;> cases hm
  | cons place rest ih =>
    cases budget with
    | zero =>
      cases h
      cases hm
    | succ budget =>
      obtain ⟨result, hresult, h⟩ := Except.bind_eq_ok_iff.1 h
      cases result with
      | none => exact ih h hm
      | some graft =>
        obtain ⟨others, hothers, h⟩ := Except.bind_eq_ok_iff.1 h
        cases h
        rcases List.mem_cons.1 hm with rfl | hm
        · exact ⟨place, hresult⟩
        · exact ih hothers hm

namespace Analyzer

theorem isApplicable_eq_ok_true_iff : a.isApplicable d evaluations m = .ok true ↔
    ∃ d', m.apply a.registry d evaluations = .ok d' := by
  unfold isApplicable
  split
  · next d' h => simp [h]
  · next h => simp [h]
  · next h => simp [h]

theorem exists_apply_of_mem_keepApplicable {proposals kept : List Mutation}
    (h : a.keepApplicable d evaluations proposals = .ok kept) (hm : m ∈ kept) :
    ∃ d', m.apply a.registry d evaluations = .ok d' := by
  induction proposals generalizing kept with
  | nil =>
    cases h
    cases hm
  | cons proposal rest ih =>
    obtain ⟨keep, hkeep, h⟩ := Except.bind_eq_ok_iff.1 h
    obtain ⟨others, hothers, h⟩ := Except.bind_eq_ok_iff.1 h
    cases h
    cases keep with
    | false => exact ih hothers hm
    | true =>
      rcases List.mem_cons.1 hm with rfl | hm
      · exact isApplicable_eq_ok_true_iff.1 hkeep
      · exact ih hothers hm

/-- A graft that an attempt brings has been applied, and the grafted diagram gets all examples right
that it was checked on. -/
theorem exists_grafted_of_escapeGraft {results : List (Option Evaluation)} {index : Int}
    (h : a.escapeGraft d examples results index = .ok (some m)) : ∃ mended grafted,
      ((place? examples.length index).bind fun i => examples[i]?) = some mended ∧
      m.apply a.registry d [] = .ok grafted ∧
      a.reproducesAll grafted (mended :: keptExamples examples results index) = .ok true := by
  unfold escapeGraft at h
  split at h
  · next mended hmended =>
    split at h
    · obtain ⟨graft, -, h⟩ := Except.bind_eq_ok_iff.1 h
      split at h
      · cases h
      · cases h
      · next grafted hgrafted =>
        -- The graft is kept or dropped by what the grafted diagram reproduces.
        obtain ⟨right, hright, h⟩ := Except.bind_eq_ok_iff.1 h
        cases right with
        | false => cases h
        | true =>
          cases h
          exact ⟨mended, grafted, hmended, hgrafted, hright⟩
    · cases h
  · cases h

theorem exists_apply_of_escapeGraft {results : List (Option Evaluation)} {index : Int}
    (h : a.escapeGraft d examples results index = .ok (some m)) :
    ∃ d', m.apply a.registry d [] = .ok d' := by
  obtain ⟨-, grafted, -, hgrafted, -⟩ := exists_grafted_of_escapeGraft h
  exact ⟨grafted, hgrafted⟩

/-- **A redirection that is offered untried**: the combiner accepts the two targets of a branch, and
its refute edge is led to the target of its match edge. -/
def Redirection (a : Analyzer) (d : Diagram) (m : Mutation) : Prop :=
  ∃ (i : Nat) (p : Pattern) (t f : Int), d.nodes[i]? = some (.branch p (some t) (some f)) ∧ t ≠ f ∧
    a.combiner d t f = .ok true ∧ m = .redirectEdge (some (i : Int)) .onRefute (some t)

theorem mem_targetCandidates {i : Nat} {t f : Int} {offers : SizeCandidates}
    (h : a.targetCandidates d i t f = .ok offers) (hm : m ∈ offers.redirections) :
    t ≠ f ∧ a.combiner d t f = .ok true ∧ m = .redirectEdge (some (i : Int)) .onRefute (some t) := by
  unfold targetCandidates at h
  split at h
  · cases h
    cases hm
  · next hne =>
    obtain ⟨first, -, h⟩ := Except.bind_eq_ok_iff.1 h
    obtain ⟨second, -, h⟩ := Except.bind_eq_ok_iff.1 h
    split at h
    · cases h
      cases hm
    · obtain ⟨combine, hcombine, h⟩ := Except.bind_eq_ok_iff.1 h
      cases h
      cases combine with
      | false => cases hm
      | true => exact ⟨hne, Except.mapError_eq_ok_iff.1 hcombine, List.mem_singleton.1 hm⟩

theorem redirection_of_mem_nodeCandidates {i : Nat} {n : Node} {offers : SizeCandidates}
    (hn : d.nodes[i]? = some n) (h : a.nodeCandidates d i n = .ok offers)
    (hm : m ∈ offers.redirections) : a.Redirection d m := by
  cases n with
  | leaf p =>
    cases h
    cases hm
  | branch p t f =>
    dsimp only [nodeCandidates] at h
    split at h
    · next t f =>
      obtain ⟨targets, htargets, h⟩ := Except.bind_eq_ok_iff.1 h
      cases h
      obtain ⟨hne, hcombiner, rfl⟩ := mem_targetCandidates htargets hm
      exact ⟨i, p, t, f, hn, hne, hcombiner, rfl⟩
    · cases h
      cases hm

/-- The size-changing mutations on offer can be applied, and the others are redirections. -/
theorem mem_sizeCandidates {offers : SizeCandidates} (h : a.sizeCandidates d = .ok offers) :
    (∀ m ∈ offers.sizing, ∃ d', m.apply a.registry d [] = .ok d') ∧
      ∀ m ∈ offers.redirections, a.Redirection d m := by
  obtain ⟨nodes, hnodes, h⟩ := Except.bind_eq_ok_iff.1 h
  obtain ⟨kept, hkept, h⟩ := Except.bind_eq_ok_iff.1 h
  cases h
  refine ⟨fun m hm => exists_apply_of_mem_keepApplicable hkept hm, fun m hm => ?_⟩
  obtain ⟨node, hnode, hm⟩ := List.mem_flatMap.1 hm
  obtain ⟨⟨n, i⟩, hi, hoffers⟩ := List.exists_left_of_forall₂ (List.mapM_eq_ok_iff.1 hnodes) hnode
  exact redirection_of_mem_nodeCandidates (List.mem_zipIdx_iff_getElem?.1 hi) hoffers hm

/-- **What an analysis consists of**: what the five producers offer, one after another. -/
theorem exists_of_analyze {σ : Type} [RandomSource σ] {known : Option (List (Option Evaluation))}
    {s s' : σ} {x : Analysis} (h : a.analyze d examples known s = .ok (x, s')) :
    ∃ neutral sizes grafts moves next,
      (neutral = [] ∨ a.neutralCandidates d (x.evaluations.filterMap id) = .ok neutral) ∧
      a.sizeCandidates d = .ok sizes ∧
      a.escapeCandidates d examples x.evaluations x.failing s = .ok (grafts, next) ∧
      a.moves d next = .ok (moves, s') ∧
      x.candidates = neutral ++ sizes.sizing ++ grafts ++ sizes.redirections ++ moves := by
  unfold analyze at h
  -- Whether the evaluations are known and whether any has ended makes no difference from here on.
  extract_lets rest at h
  obtain ⟨results, h⟩ : ∃ results, rest results = .ok (x, s') := by
    split at h
    · exact ⟨_, h⟩
    · obtain ⟨results, -, h⟩ := Except.bind_eq_ok_iff.1 h
      exact ⟨results, h⟩
  dsimp only [rest] at h
  obtain ⟨neutral, hneutral, h⟩ : ∃ neutral,
      (neutral = [] ∨ a.neutralCandidates d (results.filterMap id) = .ok neutral) ∧ (do
        let sizes ← a.sizeCandidates d
        let grafts ← a.escapeCandidates d examples results
          (failingPlaces (correct results examples)) s
        let moves ← a.moves d grafts.2
        pure ((⟨results, correct results examples,
          neutral ++ sizes.sizing ++ grafts.1 ++ sizes.redirections ++ moves.1⟩ : Analysis),
          moves.2)) = .ok (x, s') := by
    split at h
    · exact ⟨[], .inl rfl, h⟩
    · obtain ⟨neutral, hneutral, h⟩ := Except.bind_eq_ok_iff.1 h
      exact ⟨neutral, .inr hneutral, h⟩
  obtain ⟨sizes, hsizes, h⟩ := Except.bind_eq_ok_iff.1 h
  obtain ⟨⟨grafts, next⟩, hgrafts, h⟩ := Except.bind_eq_ok_iff.1 h
  obtain ⟨⟨moves, last⟩, hmoves, h⟩ := Except.bind_eq_ok_iff.1 h
  cases h
  exact ⟨neutral, sizes, grafts, moves, next, hneutral, hsizes, hgrafts, hmoves, rfl⟩

/-- **What is on offer can be applied, but for redirections.** Judged by the evaluations of the
analysis, each mutation on offer gives a well-formed diagram, or it is a redirection offered
untried, and then a reference of the redirected diagram is not bound on every way to it. -/
theorem apply_or_redirection_of_mem_candidates {σ : Type} [RandomSource σ]
    {known : Option (List (Option Evaluation))} {s s' : σ} {x : Analysis}
    (hd : d.validate a.registry = .ok d) (h : a.analyze d examples known s = .ok (x, s')) :
    ∀ m ∈ x.candidates,
      (∃ d', m.apply a.registry d (x.evaluations.filterMap id) = .ok d' ∧
        d'.validate a.registry = .ok d') ∨
      a.Redirection d m ∧ ∃ j found, m.apply a.registry d (x.evaluations.filterMap id) =
        .error (.invalid (.malformed ⟨some j, .unboundReference found⟩)) := by
  have hfault := (Diagram.validate_eq_ok_iff.1 hd).1
  obtain ⟨neutral, sizes, grafts, moves, next, hneutral, hsizes, hgrafts, hmoves, hcandidates⟩ :=
    exists_of_analyze h
  obtain ⟨hsizing, hredirections⟩ := mem_sizeCandidates hsizes
  -- What can be applied gives a diagram that validation accepts, judged by whatever evaluations.
  have hvalid {m : Mutation}
      (happly : ∃ d', m.apply a.registry d (x.evaluations.filterMap id) = .ok d') :
      ∃ d', m.apply a.registry d (x.evaluations.filterMap id) = .ok d' ∧
        d'.validate a.registry = .ok d' := by
    obtain ⟨d', hd'⟩ := happly
    exact ⟨d', hd', Diagram.validate_eq_ok_iff.2 ⟨(Mutation.apply_eq_ok_iff.1 hd').2.2, rfl⟩⟩
  have htried {m : Mutation} (happly : ∃ d', m.apply a.registry d [] = .ok d') :
      ∃ d', m.apply a.registry d (x.evaluations.filterMap id) = .ok d' := by
    obtain ⟨d', hd'⟩ := happly
    exact ⟨d', Mutation.apply_of_apply_nil hd'⟩
  intro m hm
  simp only [hcandidates, List.mem_append, or_assoc] at hm
  rcases hm with hm | hm | hm | hm | hm
  · -- Neutral ones have been tried with the evaluations of the analysis.
    rcases hneutral with rfl | hneutral
    · cases hm
    · obtain ⟨proposals, -, hkept⟩ := Except.bind_eq_ok_iff.1 hneutral
      exact .inl (hvalid (exists_apply_of_mem_keepApplicable hkept hm))
  · exact .inl (hvalid (htried (hsizing m hm)))
  · obtain ⟨tried, htriedGrafts, heq⟩ := Except.bind_eq_ok_iff.1 hgrafts
    cases heq
    obtain ⟨place, hplace⟩ := exists_attempt_of_mem_graftsFor htriedGrafts hm
    exact .inl (hvalid (htried (exists_apply_of_escapeGraft hplace)))
  · -- Redirections have not been tried.
    have hredirection := hredirections m hm
    obtain ⟨i, p, t, f, hn, -, -, rfl⟩ := id hredirection
    exact (Mutation.apply_redirectEdge hfault hn).imp hvalid fun h => ⟨hredirection, h⟩
  · obtain ⟨T, -, hmoves⟩ := Except.bind_eq_ok_iff.1 hmoves
    have hfound := forall_mem_of_movesFrom (fun m => isApplicable_eq_ok_true_iff.1)
      (List.forall_mem_nil _) hmoves
    exact .inl (hvalid (htried (hfound m hm)))

end Analyzer

namespace Diamond

def signal : Predicate := ⟨"signal", 1⟩
def test : Predicate := ⟨"test", 1⟩
def output : Predicate := ⟨"output", 1⟩

/-- A diagram in which both targets of the root test the same, and only the match edge of the root
binds what is emitted. -/
def diagram : Diagram :=
  ⟨[.branch ⟨some signal, [.free 0]⟩ (some 1) (some 2),
    .branch ⟨some test, [.constant (.text "x")]⟩ (some 3) none,
    .branch ⟨some test, [.constant (.text "x")]⟩ none none,
    .leaf ⟨some output, [.reference 0]⟩], 0⟩

/-- An analyzer for the diagram, with the usual budgets and the usual combiner. -/
def analyzer : Analyzer := .standard (some ⟨[signal, test, output], by decide⟩)

/-- The redirection that the analyzer offers for the root. -/
def redirection : Mutation := .redirectEdge (some 0) .onRefute (some 1)

theorem exists_analysis : ∃ x s', analyzer.analyze diagram [] none (Congruential.ofSeed 0) =
    .ok (x, s') ∧ redirection ∈ x.candidates := by
  have hany : (analyzer.analyze diagram [] none (Congruential.ofSeed 0)).toOption.any fun result =>
      decide (redirection ∈ result.1.candidates) := by
    decide +kernel
  obtain ⟨⟨x, s'⟩, hx, hmem⟩ := Except.exists_of_any_toOption hany
  exact ⟨x, s', hx, of_decide_eq_true hmem⟩

/-- The mutations on offer in the diamond can be applied or are redirections. -/
theorem apply_or_redirection_diamond : diagram.validate analyzer.registry = .ok diagram ∧
    ∃ x s', analyzer.analyze diagram [] none (Congruential.ofSeed 0) = .ok (x, s') ∧
      redirection ∈ x.candidates ∧
      ∀ m ∈ x.candidates,
        (∃ d', m.apply analyzer.registry diagram (x.evaluations.filterMap id) = .ok d' ∧
          d'.validate analyzer.registry = .ok d') ∨
        analyzer.Redirection diagram m ∧ ∃ j found,
          m.apply analyzer.registry diagram (x.evaluations.filterMap id) =
            .error (.invalid (.malformed ⟨some j, .unboundReference found⟩)) := by
  have hvalid : diagram.validate analyzer.registry = .ok diagram := rfl
  obtain ⟨x, s', hx, hmem⟩ := exists_analysis
  exact ⟨hvalid, x, s', hx, hmem, Analyzer.apply_or_redirection_of_mem_candidates hvalid hx⟩

/-- Not every mutation on offer can be applied. -/
theorem not_forall_candidates_apply : ¬ ∀ (a : Analyzer) (d : Diagram) (examples : List Example)
    (s s' : Congruential) (x : Analysis), d.validate a.registry = .ok d →
    a.analyze d examples none s = .ok (x, s') →
    ∀ m ∈ x.candidates, ∃ d', m.apply a.registry d (x.evaluations.filterMap id) = .ok d' := by
  intro h
  obtain ⟨x, s', hx, hmem⟩ := exists_analysis
  obtain ⟨d', hd'⟩ := h analyzer diagram [] _ s' x rfl hx redirection hmem
  -- The redirected leaf reads the register on a way that does not bind it.
  have hnone : (redirection.apply analyzer.registry diagram []).toOption = none := by decide
  have hsome : redirection.apply analyzer.registry diagram [] = .ok d' :=
    (Mutation.apply_congr (by decide)).trans hd'
  rw [hsome] at hnone
  cases hnone

end Diamond

end RuleDiagram
