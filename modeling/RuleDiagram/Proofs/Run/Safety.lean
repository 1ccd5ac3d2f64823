import RuleDiagram.Proofs.Diagram.WellFormed
import RuleDiagram.Proofs.Reachability
import RuleDiagram.Proofs.Run.Stages

/-!
# Runs of well-formed diagrams are safe

The registers that the analysis finds bound on every way to a node are bound in all snapshots that
come to it: the snapshots that bind them form a family closed under propagation. So no reference of
a branch ever reads an unbound register, every leaf gives a fact for each of its snapshots, and an
evaluation ends with a result or at its limit.

## Main definitions

* `ReadsBound`: the references of a pattern find their registers bound
* `Diagram.SafeAt`: what never goes wrong at a stage of an evaluation

## Main results

* `readsBound_of_firstUnbound`: the static check of one pattern is sound
* `Diagram.PostFixpoint.arrivals_le_family`: the table of bound registers is sound
* `Diagram.evaluate_safe`: evaluations of diagrams that validation accepts are safe
-/

namespace RuleDiagram

variable {d : Diagram} {facts : List Fact} {T : BoundTable} {live : List Int} {ts : List Term}
  {vs : List Value} {s t : Snapshot} {p : Pattern} {i : Int}

/-- **While terms meet values from left to right, every reference that is come to finds its register
bound**, by the snapshot at that moment. -/
def ReadsBound : List Term → List Value → Snapshot → Prop
  | a :: terms, v :: values, s =>
    (∀ r, a.read? = some r → s.Binds r) ∧ ∀ t, a.unify v s = some t → ReadsBound terms values t
  | _, _, _ => True

/-- The check of one pattern is sound: with the live registers bound, no reference reads an unbound
register. -/
theorem readsBound_of_firstUnbound (h : firstUnbound live ts = none) (hs : ∀ r ∈ live, s.Binds r) :
    ReadsBound ts vs s := by
  -- Induction on the terms: the live registers stay bound, and a free term makes one more live.
  induction ts generalizing live vs s with
  | nil => simp [ReadsBound]
  | cons a ts ih =>
    cases vs with
    | nil => simp [ReadsBound]
    | cons v vs =>
      cases a with
      | constant c =>
        exact ⟨fun r hr => (by cases hr), fun t ht =>
          ih h fun r hr => Term.unify_binds ht (hs r hr)⟩
      | reference r =>
        rw [firstUnbound] at h
        split at h
        · next hr =>
          refine ⟨fun r' hr' => ?_, fun t ht => ih h fun r hr => Term.unify_binds ht (hs r hr)⟩
          obtain rfl : r = r' := Option.some_inj.1 hr'
          exact hs r hr
        · cases h
      | free r =>
        -- The terms after it may read the register that it writes.
        refine ⟨fun r hr => (by cases hr), fun t ht => ih h fun r' hr' => ?_⟩
        rcases List.mem_cons.1 hr' with rfl | hr'
        · exact Term.unify_binds_written ht rfl
        · exact Term.unify_binds ht (hs r' hr')

/-- Without free terms, all references read live registers. -/
theorem mem_live_of_firstUnbound {r : Int} (h : firstUnbound live ts = none)
    (hfree : ∀ a ∈ ts, a.written? = none) (hr : .reference r ∈ ts) : r ∈ live := by
  induction ts with
  | nil => cases hr
  | cons a ts ih =>
    have hfree' : ∀ a ∈ ts, a.written? = none := fun b hb => hfree b (List.mem_cons_of_mem a hb)
    cases a with
    | constant c =>
      rcases List.mem_cons.1 hr with hr | hr
      · cases hr
      · exact ih h hfree' hr
    | reference r' =>
      rw [firstUnbound] at h
      split at h
      · next hlive =>
        rcases List.mem_cons.1 hr with ⟨⟨⟩⟩ | hr
        · exact hlive
        · exact ih h hfree' hr
      · cases h
    | free r' => exact absurd (hfree _ List.mem_cons_self) (Option.some_ne_none r')

/-- A template of constants and bound references gives a fact. -/
theorem exists_instantiate (hfits : p.Fits) (hpred : p.predicate ≠ none)
    (hfree : ∀ a ∈ p.terms, a.written? = none) (hs : ∀ r, .reference r ∈ p.terms → s.Binds r) :
    ∃ f, instantiate p s = .ok f := by
  obtain ⟨q, hq⟩ := Option.ne_none_iff_exists'.1 hpred
  have hterm (a : Term) (ha : a ∈ p.terms) : ∃ v, a.instantiate s = .ok v := by
    cases a with
    | constant v => exact ⟨v, rfl⟩
    | reference r =>
      obtain ⟨v, hv⟩ := Snapshot.binds_iff.1 (hs r ha)
      exact ⟨v, Term.instantiate_eq_ok_iff.2 (.inr ⟨r, .inl rfl, hv⟩)⟩
    | free r => exact absurd (hfree _ ha) (Option.some_ne_none r)
  obtain ⟨vs, hvs⟩ := List.exists_mapM_eq_ok hterm
  have hforall := List.mapM_eq_ok_iff.1 hvs
  have hlen : (vs.length : Int) = q.arity := by
    unfold Pattern.Fits at hfits
    rw [hq] at hfits
    rw [← hforall.length_eq, hfits]
  exact ⟨⟨q, vs, hlen⟩, instantiate_eq_ok_iff.2 ⟨hq, hforall⟩⟩

/-- A template that gives a fact gives one with any constant in place of a term. -/
theorem exists_instantiate_withTerm {f : Fact} (h : instantiate p s = .ok f) (k : Nat) (v : Value) :
    ∃ g, instantiate (p.withTerm k (.constant v)) s = .ok g := by
  obtain ⟨hpred, hvalues⟩ := instantiate_eq_ok_iff.1 h
  have hterm : ∀ a ∈ p.terms.set k (.constant v), ∃ w, a.instantiate s = .ok w := by
    intro a ha
    rcases List.mem_or_eq_of_mem_set ha with ha | rfl
    · obtain ⟨w, -, hw⟩ := List.exists_right_of_forall₂ hvalues ha
      exact ⟨w, hw⟩
    · exact ⟨v, rfl⟩
  obtain ⟨vs, hvs⟩ := List.exists_mapM_eq_ok hterm
  have hforall := List.mapM_eq_ok_iff.1 hvs
  have hlen : (vs.length : Int) = f.predicate.arity := by
    rw [← hforall.length_eq, List.length_set, hvalues.length_eq, f.length_values]
  exact ⟨⟨f.predicate, vs, hlen⟩, instantiate_eq_ok_iff.2 ⟨hpred, hforall⟩⟩

/-- The snapshots that bind all that a table says of their index. -/
def BoundTable.family (T : BoundTable) : Family := fun i =>
  {s | ∃ entry, T.lookup i = some entry ∧ ∀ r ∈ entry, s.Binds r}

theorem BoundTable.Admits.mem_family (h : T.Admits i live) (hs : ∀ r ∈ live, s.Binds r) :
    s ∈ T.family i := by
  obtain ⟨entry, hentry, hsub⟩ := h
  exact ⟨entry, hentry, fun r hr => hs r (hsub hr)⟩

/-- What a branch delivers on a match binds what it writes. -/
theorem Pattern.Fits.binds_of_delivers {r : Int} (hfits : p.Fits)
    (h : p.Delivers facts .onMatch s t) (hr : r ∈ p.writes) : t.Binds r := by
  rw [writes, mem_ascending] at hr
  unfold Fits at hfits
  rcases h with ⟨hp, -⟩ | ⟨f, -, hp, hunify⟩
  · rw [hp] at hfits
    simp [hfits] at hr
  · rw [hp] at hfits
    have hlen : p.terms.length ≤ f.values.length := by
      have := f.length_values
      omega
    exact unify_binds_written hunify hlen hr

theorem Pattern.Delivers.binds {r : Int} {e : Edge} (h : p.Delivers facts e s t) (hr : s.Binds r) :
    t.Binds r := by
  cases e with
  | root => exact h.elim
  | onMatch =>
    rcases h with ⟨-, rfl⟩ | ⟨f, -, -, hunify⟩
    · exact hr
    · exact unify_binds hunify hr
  | onRefute => exact h.1 ▸ hr

/-- **The family of a table that every edge respects is closed under propagation.** -/
theorem Diagram.PostFixpoint.closed_family (hT : d.PostFixpoint T)
    (hfits : ∀ n ∈ d.nodes, n.pattern.Fits) : d.Closed facts T.family where
  same hst hs := by
    obtain ⟨entry, hentry, hbinds⟩ := hs
    exact ⟨entry, hentry, fun r hr => (Snapshot.binds_congr hst).1 (hbinds r hr)⟩
  root := hT.root.mem_family fun r hr => by cases hr
  onMatch {i p m f s t} hn hs ht := by
    obtain ⟨entry, hentry, hbinds⟩ := hs
    obtain ⟨_, hs', hdelivers⟩ := mem_onMatch_propagate.1 ht
    obtain rfl := List.mem_singleton.1 hs'
    refine ((hT.follows i entry p (some m) f hentry hn).1 m rfl).mem_family fun r hr => ?_
    rcases List.mem_append.1 hr with hr | hr
    · exact hdelivers.binds (hbinds r hr)
    · exact (hfits _ (mem_nodes_of_node? hn)).binds_of_delivers hdelivers hr
  onRefute {i p m f s t} hn hs ht := by
    obtain ⟨entry, hentry, hbinds⟩ := hs
    obtain ⟨_, hs', hdelivers⟩ := mem_onRefute_propagate.1 ht
    obtain rfl := List.mem_singleton.1 hs'
    exact ((hT.follows i entry p m (some f) hentry hn).2 f rfl).mem_family fun r hr =>
      hdelivers.binds (hbinds r hr)

namespace Diagram

/-- The table of bound registers is sound: it has an entry for every index at which something
arrives, and all that arrives binds it. -/
theorem PostFixpoint.arrivals_le_family (hT : d.PostFixpoint T)
    (hfits : ∀ n ∈ d.nodes, n.pattern.Fits) : d.arrivals facts ≤ T.family :=
  isLeast_arrivals.2 (hT.closed_family hfits)

namespace WellFormed

/-- Snapshots arrive at indices in range only. -/
theorem inRange_of_mem_arrivals (hd : d.WellFormed) (hs : s ∈ d.arrivals facts i) :
    inRange d.size i := by
  -- All snapshots at the indices in range are a closed family.
  have hclosed : d.Closed facts fun i => {_s | inRange d.size i} :=
    { same := fun _ h => h
      root := hd.root
      onMatch := fun {i p m f _ _} hn _ _ => hd.targets _ (mem_nodes_of_node? hn) m
        (Node.mem_targets.2 ⟨.onMatch, by simp [Node.children]⟩)
      onRefute := fun {i p m f _ _} hn _ _ => hd.targets _ (mem_nodes_of_node? hn) f
        (Node.mem_targets.2 ⟨.onRefute, by simp [Node.children]⟩) }
  exact isLeast_arrivals.2 hclosed i hs

theorem exists_instantiate_of_mem_arrivals (hd : d.WellFormed) (hn : d.node? i = some (.leaf p))
    (hs : s ∈ d.arrivals facts i) : ∃ f, instantiate p s = .ok f := by
  obtain ⟨T, -, hT, hfirst⟩ := hd.bound
  obtain ⟨entry, hentry, hbinds⟩ := hT.arrivals_le_family hd.fits i hs
  obtain ⟨hpred, hfree⟩ := hd.leaf p (mem_nodes_of_node? hn)
  refine exists_instantiate (hd.fits _ (mem_nodes_of_node? hn)) hpred hfree fun r hr => ?_
  exact hbinds r (mem_live_of_firstUnbound (hfirst i entry _ hentry hn) hfree hr)

/-- Nothing hinders the evaluation of a well-formed diagram. -/
theorem unhindered (hd : d.WellFormed) (facts : List Fact) : d.Unhindered facts where
  exists_node _ _ hs := exists_node?_of_inRange (hd.inRange_of_mem_arrivals hs)
  exists_fact _ _ hn _ hs := hd.exists_instantiate_of_mem_arrivals hn hs

end WellFormed

/-- **What never goes wrong at a stage of an evaluation.** The round takes snapshots that have come
to the nodes. A node with snapshots has an entry in the table, and they bind all of it; the
references of a branch find their registers bound, whichever of the facts it meets; a leaf gives a
fact of its predicate for each of its snapshots, and what has been emitted has as many values as its
predicate has arguments. -/
structure SafeAt (d : Diagram) (T : BoundTable) (ev : Evaluation) (news : NodeTable Snapshot) :
    Prop where
  news_le : news.sets ≤ ev.incoming.sets
  mem_table : ∀ i ∈ ev.incoming.indices, i ∈ T.map Prod.fst
  binds : ∀ i entry, T.lookup i = some entry → ∀ s ∈ ev.incoming.sets i, ∀ r ∈ entry, s.Binds r
  readsBound : ∀ i p m f, d.node? i = some (.branch p m f) → ∀ s ∈ ev.incoming.sets i,
    ∀ fact ∈ ev.facts, p.predicate = some fact.predicate → ReadsBound p.terms fact.values s
  instantiates : ∀ i p, d.node? i = some (.leaf p) → ∀ s ∈ ev.incoming.sets i,
    ∃ f, instantiate p s = .ok f ∧ p.predicate = some f.predicate ∧
      p.terms.length = f.values.length
  arity : ∀ i, ∀ f ∈ ev.emittedBy i, (f.values.length : Int) = f.predicate.arity

/-- **Evaluations of diagrams that validation accepts are safe** at all their stages, and end with a
result or at their limit. -/
theorem evaluate_safe {registry : Option Registry} (h : d.validate registry = .ok d) :
    ∃ T, d.bound = .ok T ∧ ∀ facts,
      (∀ ev news, d.Stage facts ev news → d.SafeAt T ev news) ∧
      ∀ limit, (∃ e last, d.evaluate facts limit = .ok e ∧ d.Stage facts e last) ∨
        d.evaluate facts limit = .error (.limitReached limit) := by
  have hd := wellFormed_of_fault?_eq_none (validate_eq_ok_iff.1 h).1
  obtain ⟨T, hbound, hT, hfirst⟩ := hd.bound
  refine ⟨T, hbound, fun facts => ⟨fun ev news hstage => ?_, fun limit => ?_⟩⟩
  · -- All that has come to the nodes is in the family of the table.
    have harrives : ev.incoming.sets ≤ d.arrivals facts := hstage.sets_incoming_le
    have hfamily {i : Int} {s : Snapshot} (hs : s ∈ ev.incoming.sets i) : s ∈ T.family i :=
      hT.arrivals_le_family hd.fits i (harrives i hs)
    refine
      { news_le := hstage.sets_news_le
        mem_table := fun i hi => ?_
        binds := fun i entry hentry s hs => ?_
        readsBound := fun i p m f hn s hs fact _ _ => ?_
        instantiates := fun i p hn s hs => ?_
        arity := fun _ f _ => f.length_values }
    · obtain ⟨k, hk⟩ := hstage.afterRounds
      obtain ⟨s, hs⟩ := hk.nonempty_incoming i hi
      obtain ⟨entry, hentry, -⟩ := hfamily hs
      exact List.isSome_lookup_iff_mem.1 (hentry ▸ rfl)
    · obtain ⟨entry', hentry', hbinds⟩ := hfamily hs
      obtain rfl := Option.some_inj.1 (hentry.symm.trans hentry')
      exact hbinds
    · obtain ⟨entry, hentry, hbinds⟩ := hfamily hs
      exact readsBound_of_firstUnbound (hfirst i entry _ hentry hn) hbinds
    · obtain ⟨f, hf⟩ := hd.exists_instantiate_of_mem_arrivals hn (harrives i hs)
      obtain ⟨hpred, hvalues⟩ := instantiate_eq_ok_iff.1 hf
      exact ⟨f, hf, hpred, hvalues.length_eq⟩
  · refine ((hd.unhindered facts).evaluate_eq_ok_or_limitReached limit).imp_left fun ⟨e, he⟩ => ?_
    obtain ⟨last, hstage, -⟩ := exists_stage_of_evaluate_eq_ok he
    exact ⟨e, last, he, hstage⟩

end Diagram

/-- In the cycle the start and what has been reached are bound at all nodes. -/
theorem Reachability.safe_circle : diagram.validate none = .ok diagram ∧
    ∀ ev news, diagram.Stage circle ev news →
      diagram.SafeAt [(0, []), (1, [0]), (2, [0, 1]), (3, [0, 1]), (4, [0, 1])] ev news := by
  have hvalid : diagram.validate none = .ok diagram := rfl
  have hbound : diagram.bound =
      .ok [(0, []), (1, [0]), (2, [0, 1]), (3, [0, 1]), (4, [0, 1])] := rfl
  obtain ⟨T, hT, hsafe⟩ := Diagram.evaluate_safe hvalid
  obtain rfl := Except.ok.inj (hbound.symm.trans hT)
  exact ⟨hvalid, (hsafe circle).1⟩

end RuleDiagram
