import RuleDiagram.Proofs.Diagram.Secured
import RuleDiagram.Proofs.Run.RoundCount

/-!
# Rounds and detours

An evaluation ends as soon as a round brings nothing new, so the rounds it takes are the first ones
within which all that ever arrives has arrived. A pass-through branch that leads to the same target
both ways is a detour: it sends on what comes to it, a round later. Without it the same arrives at
the other nodes, and no later than with it. With it what arrives may be delayed in every round, as
a path may take the detour time after time; but no more than by a round for each round, since what
comes off the detour goes along an edge of some other node before it can be back.

## Main definitions

* `Diagram.TakesRounds`: the number of rounds that evaluations take, whatever their limit is
* `Diagram.Stable`: nothing arrives after a number of rounds that has not arrived before
* `Diagram.passing`: what passes along an edge
* `Diagram.Bypass`: a diagram with a detour, and the one without it

## Main results

* `Diagram.WellFormed.exists_isLeast_stable`, `Diagram.takesRounds_of_isLeast`: the rounds an
  evaluation takes are the first that bring all
* `Diagram.Bypass.arrivalsWithin_subset`, `Diagram.Bypass.subset_arrivalsWithin`: what arrives
  without the detour arrives with it, and how much later
* `Diagram.Bypass.stable_without`, `Diagram.Bypass.stable_with`: when all has arrived
* `Diagram.WellFormed.stable_of_rank`: when all has arrived in a diagram without cycles
-/

namespace RuleDiagram

variable {d d' : Diagram} {facts : List Fact} {n n' : Node} {source a target : Option Int}
  {e : Edge} {i j : Int} {s t : Snapshot} {S T : Family} {k r place : ℕ}

/-- What a node sends does not depend on where its edges lead. -/
theorem Node.sends_of_shape (h : n'.shape = n.shape) :
    n'.sends facts e s = n.sends facts e s := by
  obtain ⟨hpattern, hbranch⟩ := Prod.mk.inj h
  cases n <;> cases n' <;> cases hpattern <;> first | rfl | cases hbranch

namespace Diagram

/-! ## The rounds that evaluations take -/

/-- **Evaluations of a diagram on facts take `r` rounds**, under a limit of so many rounds or more;
under a lower one they fail at their limit. -/
def TakesRounds (d : Diagram) (facts : List Fact) (r : ℕ) : Prop :=
  ∀ limit : RoundLimit, (r ≤ limit.rounds → ∃ e, d.evaluate facts limit = .ok e ∧ e.rounds = r) ∧
    (limit.rounds < r → d.evaluate facts limit = .error (.limitReached limit))

namespace TakesRounds

variable {limit : RoundLimit} {ev : Evaluation} {f : RunFault}

theorem le_of_ok (h : d.TakesRounds facts r) (hev : d.evaluate facts limit = .ok ev) :
    r ≤ limit.rounds := by
  by_contra! hlt
  cases hev.symm.trans ((h limit).2 hlt)

theorem rounds_eq (h : d.TakesRounds facts r) (hev : d.evaluate facts limit = .ok ev) :
    ev.rounds = r := by
  obtain ⟨ev', hev', hrounds⟩ := (h limit).1 (h.le_of_ok hev)
  obtain rfl := Except.ok.inj (hev.symm.trans hev')
  exact hrounds

theorem limitReached_of_error (h : d.TakesRounds facts r)
    (hf : d.evaluate facts limit = .error f) : f = .limitReached limit ∧ limit.rounds < r := by
  have hlt : limit.rounds < r := by
    by_contra! hle
    obtain ⟨_, hok, -⟩ := (h limit).1 hle
    cases hf.symm.trans hok
  exact ⟨Except.error.inj (hf.symm.trans ((h limit).2 hlt)), hlt⟩

end TakesRounds

/-- Nothing arrives after `k` rounds that has not arrived within them. -/
def Stable (d : Diagram) (facts : List Fact) (k : ℕ) : Prop :=
  d.arrivalsWithin facts (k + 1) = d.arrivalsWithin facts k

theorem stable_of_le (h : d.arrivalsWithin facts (k + 1) ≤ d.arrivalsWithin facts k) :
    d.Stable facts k :=
  le_antisymm h (arrivalsWithin_le_succ k)

/-- Once all has arrived, no number of rounds brings more. -/
theorem Stable.arrivalsWithin_le (h : d.Stable facts k) (m : ℕ) :
    d.arrivalsWithin facts m ≤ d.arrivalsWithin facts k :=
  (arrivalsWithin_le_arrivals m).trans (arrivals_eq_of_stable h).le

/-- **The rounds an evaluation takes** are the first after which all has arrived. -/
theorem takesRounds_of_isLeast (hd : d.Unhindered facts) (h : IsLeast {k | d.Stable facts k} r) :
    d.TakesRounds facts r := by
  -- An evaluation that succeeds ends with all that arrives, and not before.
  have hrounds {limit : RoundLimit} {e : Evaluation} (he : d.evaluate facts limit = .ok e) :
      e.rounds = r ∧ e.rounds ≤ limit.rounds := by
    obtain ⟨last, -, hafter, hnil, hle⟩ := exists_stage_of_evaluate_eq_ok he
    refine ⟨le_antisymm ?_ (h.2 (hafter.stable hnil)), hle⟩
    by_contra! hlt
    exact hafter.progress r hlt h.1
  intro limit
  constructor
  · intro hr
    obtain ⟨e, he⟩ := hd.exists_evaluate_eq_ok hr h.1
    exact ⟨e, he, (hrounds he).1⟩
  · intro hr
    refine (hd.evaluate_eq_ok_or_limitReached limit).resolve_left ?_
    rintro ⟨e, he⟩
    obtain ⟨rfl, hle⟩ := hrounds he
    omega

theorem not_stable_zero : ¬ d.Stable facts 0 := by
  intro h
  have hroot : .empty ∈ d.arrivalsWithin facts 1 d.root :=
    arrivalsWithin_one.symm ▸ ⟨rfl, Same.refl _⟩
  rw [h] at hroot
  exact hroot

/-- In a well-formed diagram all has arrived after some rounds. -/
theorem WellFormed.exists_isLeast_stable (hd : d.WellFormed) (facts : List Fact) :
    ∃ r, IsLeast {k | d.Stable facts k} r := by
  have hstable : ∃ k, d.Stable facts k := by
    by_contra! hnone
    exact Nat.not_succ_le_self _ (hd.le_of_progress fun m _ => hnone m)
  exact ⟨_, Nat.sInf_mem hstable, fun _ => Nat.sInf_le⟩

/-! ## Arrivals along edges -/

variable (d facts) in
/-- What passes along an edge for the snapshots of a family: what leaves its source along it, and
along the root edge, which has no source, the empty snapshot. -/
def passing (S : Family) (source : Option Int) (e : Edge) : Set Snapshot :=
  match source with
  | none => {t | Same .empty t}
  | some i => d.leaving facts S e i

theorem passing_mono (h : ∀ i, source = some i → S i ⊆ T i) :
    d.passing facts S source e ⊆ d.passing facts T source e := by
  cases source with
  | none => exact subset_rfl
  | some i =>
    rintro t ⟨n, hn, s, hs, ht⟩
    exact ⟨n, hn, s, h i rfl hs, ht⟩

/-- What arrives within a round more has passed along an edge. -/
theorem WellFormed.mem_arrivalsWithin_succ (hd : d.WellFormed) :
    t ∈ d.arrivalsWithin facts (k + 1) j ↔ ∃ source e, (source, e, some j) ∈ d.edges ∧
      t ∈ d.passing facts (d.arrivalsWithin facts k) source e := by
  rw [arrivalsWithin_succ]
  constructor
  · rintro (⟨rfl, ht⟩ | ⟨i, n, e, hn, he, m, hm, s, hs, ht⟩)
    · exact ⟨none, .root, mem_edges.2 (.inl ⟨rfl, rfl, rfl⟩), ht⟩
    · have hi := hd.inRange_of_mem_arrivals (arrivalsWithin_le_arrivals k i hs)
      obtain ⟨place, rfl, hplace⟩ := exists_place_of_node? hi hn
      exact ⟨some (place : Int), e, (mem_edges_of_node hplace).2 he, m, hm, s, hs, ht⟩
  · rintro ⟨source, e, hedge, ht⟩
    obtain ⟨rfl, rfl, hroot⟩ | ⟨place, n, rfl, hn, he⟩ := mem_edges.1 hedge
    · exact .inl ⟨Option.some_inj.1 hroot, ht⟩
    · exact .inr ⟨place, n, e, (node?_natCast place).trans hn, he, ht⟩

/-- **Where every edge leads to a greater rank**, all has arrived after as many rounds as the ranks
go up to. -/
theorem WellFormed.stable_of_rank (hd : d.WellFormed) {rank : Int → ℕ} (hroot : 1 ≤ rank d.root)
    (hedge : ∀ (place : ℕ) n, d.nodes[place]? = some n → ∀ j ∈ n.targets, rank place < rank j)
    (hrank : ∀ i, rank i ≤ k) : d.Stable facts k := by
  have key (m : ℕ) : ∀ j, d.arrivalsWithin facts m j ⊆ d.arrivalsWithin facts (rank j) j := by
    -- Induction on the rounds: what arrives has passed along an edge from a smaller rank.
    induction m with
    | zero => exact fun j s hs => hs.elim
    | succ m ih =>
      intro j t ht
      obtain ⟨source, e, hmem, ht⟩ := hd.mem_arrivalsWithin_succ.1 ht
      obtain ⟨rfl, rfl, hj⟩ | ⟨place, n, rfl, hn, he⟩ := mem_edges.1 hmem
      · refine arrivalsWithin_mono (Option.some_inj.1 hj ▸ hroot) j ?_
        exact hd.mem_arrivalsWithin_succ.2 ⟨none, .root, hmem, ht⟩
      · refine arrivalsWithin_mono (hedge place n hn j (Node.mem_targets.2 ⟨e, he⟩)) j ?_
        refine hd.mem_arrivalsWithin_succ.2 ⟨some place, e, hmem, passing_mono ?_ ht⟩
        rintro _ ⟨⟩
        exact ih place
  exact stable_of_le fun j s hs => arrivalsWithin_mono (hrank j) j (key _ j hs)

/-! ## Detours -/

/-- Where an edge leads without the detour. -/
def bypassed (place : ℕ) (target a : Option Int) : Option Int :=
  (if a = some (place : Int) then target else a).map (shiftIndex place)

/-- **The diagram `d` has a detour that the diagram `d'` is without**: a pass-through branch that
leads to another target than itself, or to none, and the same both ways. The other nodes of `d` are
those of `d'`, with the indices above the branch lowered, and their edges that lead to the branch in
`d` lead to its target in `d'`. -/
structure Bypass (d d' : Diagram) (place : ℕ) (target : Option Int) : Prop where
  branch : ∃ p, d.nodes[place]? = some (.branch p target target) ∧ p.predicate = none
  loopless : target ≠ some (place : Int)
  node : ∀ {k n}, d.nodes[k]? = some n → k ≠ place → ∃ (k' : ℕ) (n' : Node),
    shiftIndex place k = k' ∧ d'.nodes[k']? = some n' ∧ n'.shape = n.shape
  edge : ∀ {source e a}, (source, e, a) ∈ d.edges → source ≠ some (place : Int) →
    (source.map (shiftIndex place), e, bypassed place target a) ∈ d'.edges
  exists_edge : ∀ {source e a}, (source, e, a) ∈ d'.edges → ∃ source' a',
    (source', e, a') ∈ d.edges ∧ source' ≠ some (place : Int) ∧
      source = source'.map (shiftIndex place) ∧ a = bypassed place target a'

theorem bypassed_of_ne (ha : a ≠ some (place : Int)) :
    bypassed place target a = a.map (shiftIndex place) := by
  rw [bypassed, if_neg ha]

theorem bypassed_some (hi : i ≠ place) :
    bypassed place target (some i) = some (shiftIndex place i) :=
  bypassed_of_ne fun hp => hi (Option.some_inj.1 hp)

theorem bypassed_self : bypassed place target (some (place : Int)) =
    target.map (shiftIndex place) := by
  rw [bypassed, if_pos rfl]

namespace Bypass

/-- An edge that leads to a node without the detour leads there with it too, or by way of it. -/
theorem exists_of_bypassed (h : d.Bypass d' place target)
    (ha : bypassed place target a = some j) : ∃ i, i ≠ (place : Int) ∧ shiftIndex place i = j ∧
      (a = some i ∨ a = some (place : Int) ∧ target = some i) := by
  have hindex {b : Option Int} (hb : b ≠ some (place : Int))
      (hj : b.map (shiftIndex place) = some j) :
      ∃ i, i ≠ (place : Int) ∧ shiftIndex place i = j ∧ b = some i := by
    obtain ⟨i, rfl, hi⟩ := Option.map_eq_some_iff.1 hj
    exact ⟨i, fun hp => hb (congrArg some hp), hi, rfl⟩
  by_cases hplace : a = some (place : Int)
  · subst hplace
    obtain ⟨i, hi, hij, htarget⟩ := hindex h.loopless (bypassed_self.symm.trans ha)
    exact ⟨i, hi, hij, .inr ⟨rfl, htarget⟩⟩
  · obtain ⟨i, hi, hij, ha⟩ := hindex hplace ((bypassed_of_ne hplace).symm.trans ha)
    exact ⟨i, hi, hij, .inl ha⟩

/-- The source of an edge without the detour is the source with it, its targets aside. -/
theorem exists_nodes (h : d.Bypass d' place target) (hedge : (some i, e, a) ∈ d.edges)
    (hi : i ≠ place) : ∃ n n', d.node? i = some n ∧ d'.node? (shiftIndex place i) = some n' ∧
      n'.shape = n.shape := by
  obtain ⟨⟨⟩, -⟩ | ⟨k, n, hk, hn, -⟩ := mem_edges.1 hedge
  obtain rfl := Option.some_inj.1 hk
  obtain ⟨k', n', hk', hn', hshape⟩ := h.node hn (Int.ofNat_inj.not.1 hi)
  exact ⟨n, n', (node?_natCast k).trans hn, hk' ▸ (node?_natCast k').trans hn', hshape⟩

/-- The same passes along an edge with the detour and without it, if the same has come to its
source. -/
theorem passing_eq (h : d.Bypass d' place target) (hedge : (source, e, a) ∈ d.edges)
    (hsource : source ≠ some (place : Int)) :
    d'.passing facts S (source.map (shiftIndex place)) e =
      d.passing facts (fun i => S (shiftIndex place i)) source e := by
  cases source with
  | none => rfl
  | some i =>
    obtain ⟨n, n', hn, hn', hshape⟩ := h.exists_nodes hedge fun hi => hsource (congrArg some hi)
    rw [Option.map_some, passing, passing, leaving_of_node hn, leaving_of_node hn']
    simp only [Node.sends_of_shape hshape]

/-- Both edges of the detour lead to its target. -/
theorem eq_target_of_edge (h : d.Bypass d' place target)
    (hedge : (some (place : Int), e, a) ∈ d.edges) : a = target := by
  obtain ⟨p, hn, -⟩ := h.branch
  exact (Node.mem_children_branch.1 ((mem_edges_of_node hn).1 hedge)).elim And.right And.right

/-- What comes off the detour has come to it. -/
theorem mem_passing_detour (h : d.Bypass d' place target)
    (hedge : (some (place : Int), e, a) ∈ d.edges) :
    t ∈ d.passing facts S (some (place : Int)) e ↔ ∃ s ∈ S place, Same s t := by
  obtain ⟨p, hn, hp⟩ := h.branch
  have he := ne_root_of_mem_children ((mem_edges_of_node hn).1 hedge)
  rw [passing, leaving_of_node ((node?_natCast place).trans hn)]
  simp only [Node.mem_sends_passThrough hp he, Set.mem_ofPred_eq]

/-- What comes to the detour is sent on to its target. -/
theorem mem_edges_detour (h : d.Bypass d' place target) :
    (some (place : Int), .onMatch, target) ∈ d.edges := by
  obtain ⟨p, hn, -⟩ := h.branch
  exact mem_edges_onMatch hn

/-- **Without the detour the same arrives, and no later**: at the other nodes what has arrived
there, and at the target of the detour what has arrived at the detour. -/
theorem arrivalsWithin_subset (h : d.Bypass d' place target) (hd : d.WellFormed)
    (hd' : d'.WellFormed) (hi : bypassed place target (some i) = some j) :
    d.arrivalsWithin facts k i ⊆ d'.arrivalsWithin facts k j := by
  -- Induction on the rounds. What comes off the detour has arrived there a round earlier.
  induction k generalizing i j with
  | zero => exact fun s hs => hs.elim
  | succ k ih =>
    intro t ht
    obtain ⟨source, e, hedge, ht⟩ := hd.mem_arrivalsWithin_succ.1 ht
    by_cases hsource : source = some (place : Int)
    · subst hsource
      obtain rfl := h.eq_target_of_edge hedge
      obtain ⟨s, hs, hst⟩ := (h.mem_passing_detour hedge).1 ht
      rw [bypassed_of_ne h.loopless, ← bypassed_self] at hi
      exact arrivalsWithin_le_succ k j (mem_arrivalsWithin_of_same hst (ih hi hs))
    · refine hd'.mem_arrivalsWithin_succ.2 ⟨_, e, hi ▸ h.edge hedge hsource, ?_⟩
      rw [h.passing_eq hedge hsource]
      refine passing_mono (fun i' hi' => ih (bypassed_some ?_)) ht
      exact fun hp => hsource (hi'.trans (congrArg some hp))

/-- What passes along an edge with the detour arrives where the edge leads without it, in the next
round or, by way of the detour, in the one after. -/
theorem mem_arrivalsWithin_of_passing (h : d.Bypass d' place target) (hd : d.WellFormed)
    (hedge : (source, e, a) ∈ d.edges) (hi : i ≠ place)
    (ha : bypassed place target a = some (shiftIndex place i))
    (ht : t ∈ d.passing facts (d.arrivalsWithin facts k) source e) :
    t ∈ d.arrivalsWithin facts (k + 1) i ∨
      a = some (place : Int) ∧ t ∈ d.arrivalsWithin facts (k + 2) i := by
  obtain ⟨i', hi', hshift, hcases⟩ := h.exists_of_bypassed ha
  obtain rfl := shiftIndex_inj hi' hi hshift
  rcases hcases with rfl | ⟨rfl, rfl⟩
  · exact .inl (hd.mem_arrivalsWithin_succ.2 ⟨source, e, hedge, ht⟩)
  · have hdetour : t ∈ d.arrivalsWithin facts (k + 1) place :=
      hd.mem_arrivalsWithin_succ.2 ⟨source, e, hedge, ht⟩
    have honward := h.mem_edges_detour
    exact .inr ⟨rfl, hd.mem_arrivalsWithin_succ.2 ⟨_, _, honward,
      (h.mem_passing_detour honward).2 ⟨t, hdetour, Same.refl t⟩⟩⟩

/-- **With the detour the same arrives at the other nodes**, at most a round later for each round
after the first, and for the first one if the detour is the root. -/
theorem subset_arrivalsWithin (h : d.Bypass d' place target) (hd : d.WellFormed)
    (hd' : d'.WellFormed) (late : ℕ) (hlate : d.root = place → 1 ≤ late) (hi : i ≠ place) :
    d'.arrivalsWithin facts (k + 1) (shiftIndex place i) ⊆
      d.arrivalsWithin facts (2 * k + 1 + late) i := by
  -- Induction on the rounds, by the edge without the detour that leads here.
  induction k using Nat.strong_induction_on generalizing i with
  | _ k ih =>
    intro t ht
    obtain ⟨_, e, hedge', ht⟩ := hd'.mem_arrivalsWithin_succ.1 ht
    obtain ⟨source, a, hedge, hsource, rfl, ha⟩ := h.exists_edge hedge'
    cases source with
    | none =>
      -- Along the root edge the empty snapshot passes to begin with.
      have hpass : t ∈ d.passing facts (d.arrivalsWithin facts 0) none e := ht
      rcases h.mem_arrivalsWithin_of_passing hd hedge hi ha.symm hpass with ht | ⟨rfl, ht⟩
      · exact arrivalsWithin_mono (by omega) i ht
      · have hroot : d.root = place := by
          obtain ⟨-, -, hroot⟩ | ⟨_, _, ⟨⟩, -⟩ := mem_edges.1 hedge
          exact (Option.some_inj.1 hroot).symm
        have := hlate hroot
        exact arrivalsWithin_mono (by omega) i ht
    | some i' =>
      cases k with
      | zero =>
        obtain ⟨_, _, _, hs, _⟩ := ht
        exact hs.elim
      | succ m =>
        rw [h.passing_eq hedge hsource] at ht
        have hpass := passing_mono (fun j hj =>
          ih m (Nat.lt_succ_self m) fun hp => hsource (hj.trans (congrArg some hp))) ht
        rcases h.mem_arrivalsWithin_of_passing hd hedge hi ha.symm hpass with ht | ⟨-, ht⟩
        · exact arrivalsWithin_mono (by omega) i ht
        · exact arrivalsWithin_mono (by omega) i ht

/-! ## When all has arrived -/

/-- **Without the detour all has arrived as soon as it has with the detour.** -/
theorem stable_without (h : d.Bypass d' place target) (hd : d.WellFormed) (hd' : d'.WellFormed)
    (hstable : d.Stable facts k) : d'.Stable facts k := by
  refine stable_of_le fun j t ht => ?_
  -- With the detour the index is that of a node where no more arrives than within the rounds.
  obtain ⟨_, _, hedge', -⟩ := hd'.mem_arrivalsWithin_succ.1 ht
  obtain ⟨_, _, -, -, -, ha⟩ := h.exists_edge hedge'
  obtain ⟨i, hi, rfl, -⟩ := h.exists_of_bypassed ha.symm
  have hlater := h.subset_arrivalsWithin hd hd' 1 (fun _ => le_rfl) hi ht
  exact h.arrivalsWithin_subset hd hd' (bypassed_some hi) (hstable.arrivalsWithin_le _ i hlater)

/-- Once all has arrived without the detour, what arrives with it at the other nodes is not long in
coming. -/
theorem arrivalsWithin_subset_of_stable (h : d.Bypass d' place target) (hd : d.WellFormed)
    (hd' : d'.WellFormed) (hstable : d'.Stable facts (k + 1)) (late : ℕ)
    (hlate : d.root = place → 1 ≤ late) (hi : i ≠ place) (m : ℕ) :
    d.arrivalsWithin facts m i ⊆ d.arrivalsWithin facts (2 * k + 1 + late) i := by
  calc d.arrivalsWithin facts m i
      ⊆ d'.arrivalsWithin facts m (shiftIndex place i) :=
        h.arrivalsWithin_subset hd hd' (bypassed_some hi)
    _ ⊆ d'.arrivalsWithin facts (k + 1) (shiftIndex place i) := hstable.arrivalsWithin_le m _
    _ ⊆ d.arrivalsWithin facts (2 * k + 1 + late) i := h.subset_arrivalsWithin hd hd' late hlate hi

/-- **With the detour all has arrived after twice the rounds that it takes without**, if the detour
is not the root or nothing but the root edge leads to it. -/
theorem stable_with (h : d.Bypass d' place target) (hd : d.WellFormed) (hd' : d'.WellFormed)
    (hroot : d.root = place → ∀ source e, (source, e, some (place : Int)) ∈ d.edges → source = none)
    (hstable : d'.Stable facts k) : d.Stable facts (2 * k) := by
  obtain ⟨k, rfl⟩ : ∃ m, k = m + 1 := Nat.exists_eq_succ_of_ne_zero fun hk =>
    not_stable_zero (hk ▸ hstable)
  refine stable_of_le fun j t ht => ?_
  by_cases hj : j = place
  · -- What arrives at the detour has passed along the root edge, or along that of another node.
    subst hj
    obtain ⟨source, e, hedge, ht⟩ := hd.mem_arrivalsWithin_succ.1 ht
    cases source with
    | none =>
      have hfirst : t ∈ d.arrivalsWithin facts 1 place :=
        hd.mem_arrivalsWithin_succ.2 ⟨none, e, hedge, ht⟩
      exact arrivalsWithin_mono (by omega) _ hfirst
    | some i =>
      have hi : i ≠ place := by
        rintro rfl
        exact h.loopless (h.eq_target_of_edge hedge).symm
      have hlate : d.root = place → 1 ≤ 0 := fun hp => nomatch hroot hp _ _ hedge
      refine hd.mem_arrivalsWithin_succ.2 ⟨some i, e, hedge, passing_mono ?_ ht⟩
      rintro _ ⟨⟩
      exact h.arrivalsWithin_subset_of_stable hd hd' hstable 0 hlate hi _
  · exact h.arrivalsWithin_subset_of_stable hd hd' hstable 1 (fun _ => le_rfl) hj _ ht

end Bypass

end Diagram

end RuleDiagram
