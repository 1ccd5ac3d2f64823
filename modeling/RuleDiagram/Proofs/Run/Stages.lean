import RuleDiagram.Proofs.Run.Rounds

/-!
# The stages of an evaluation

The states of an evaluation between its rounds are its stages; a round that succeeds leads from one
to the next. A round takes nothing but news, and yet an evaluation after `k` rounds holds what has
arrived when everything is taken anew `k` times: nodes send for one snapshot at a time, so that what
the old snapshots send is already there.

## Main definitions

* `Diagram.Stage`: the states of an evaluation between its rounds
* `Diagram.AfterRounds`: what a state holds after a number of rounds
* `Diagram.Unhindered`: all that arrives comes to nodes that can take it

## Main results

* `Diagram.AfterRounds.round`: a round keeps what a state holds
* `Diagram.Stage.afterRounds`: every stage holds the snapshots that arrive within its rounds
* `Diagram.exists_stage_of_evaluate_eq_ok`, `Diagram.exists_stage_of_evaluate_eq_error`: how an
  evaluation ends
* `Diagram.Unhindered.evaluate_eq_ok_or_limitReached`: when nothing but its limit can end an
  evaluation without a result
-/

namespace RuleDiagram

open ListSet

namespace Diagram

/-- **The states of an evaluation between its rounds**, each with what is new to the nodes. -/
inductive Stage (d : Diagram) (facts : List Fact) : Evaluation → NodeTable Snapshot → Prop
  | start : Stage d facts (.start d facts) (Evaluation.start d facts).incoming
  | round {ev : Evaluation} {news : NodeTable Snapshot} {r : Round} (h : Stage d facts ev news)
    (hnews : news.entries ≠ []) (hround : ev.round d news = .ok r) : Stage d facts r.close r.news

/-- **What a state holds after `k` rounds**: the nodes have taken the snapshots that arrive within
`k` rounds, what came of them has left the branches and the leaves, and what has arrived since is
new. Every round so far has brought something new. -/
structure AfterRounds (d : Diagram) (facts : List Fact) (k : ℕ) (ev : Evaluation)
    (news : NodeTable Snapshot) : Prop where
  facts_eq : ev.facts = ofList facts
  rounds_eq : ev.rounds = k
  sets_incoming : ev.incoming.sets = d.arrivalsWithin facts (k + 1)
  sets_news : news.sets = d.arrivalsWithin facts (k + 1) \ d.arrivalsWithin facts k
  sets_left : ∀ e, (ev.left e).sets = d.leaving facts (d.arrivalsWithin facts k) e
  sets_emitted : ∀ j, ev.emitted.sets j = d.emission (d.arrivalsWithin facts k) j
  nonempty_incoming : ∀ j ∈ ev.incoming.indices, (ev.incoming.sets j).Nonempty
  nonempty_news : ∀ x ∈ news.entries, x.2 ≠ []
  mem_left : ∀ j e, e ≠ .root →
    (j ∈ (ev.left e).indices ↔ d.Reaches (d.arrivalsWithin facts k) true j)
  mem_emitted : ∀ j, j ∈ ev.emitted.indices ↔ d.Reaches (d.arrivalsWithin facts k) false j
  exists_node : ∀ j, (d.arrivalsWithin facts k j).Nonempty → ∃ n, d.node? j = some n
  instantiates : ∀ j p, d.node? j = some (.leaf p) → ∀ s ∈ d.arrivalsWithin facts k j,
    ∃ f, instantiate p s = .ok f
  progress : ∀ m < k, d.arrivalsWithin facts (m + 1) ≠ d.arrivalsWithin facts m

variable {d : Diagram} {facts : List Fact} {ev e : Evaluation} {news : NodeTable Snapshot}
  {limit : RoundLimit}

theorem sets_incoming_start :
    (Evaluation.start d facts).incoming.sets = d.arrivalsWithin facts 1 := by
  rw [arrivalsWithin_one]
  funext j
  ext s
  exact NodeTable.mem_sets_single.trans (and_congr_right fun _ => mem_toSet_singleton)

namespace AfterRounds

variable {k : ℕ}

theorem start : d.AfterRounds facts 0 (.start d facts) (Evaluation.start d facts).incoming where
  facts_eq := rfl
  rounds_eq := rfl
  sets_incoming := sets_incoming_start
  sets_news := by rw [sets_incoming_start, arrivalsWithin_zero, sdiff_bot]
  sets_left e := by
    rw [arrivalsWithin_zero, leaving_bot]
    funext j
    cases e <;> exact NodeTable.sets_empty
  sets_emitted j := by
    rw [arrivalsWithin_zero, emission_bot]
    exact NodeTable.sets_empty
  nonempty_incoming j hj := by
    obtain rfl : j = d.root := NodeTable.mem_indices_single.1 hj
    exact ⟨.empty, NodeTable.mem_sets_single.2 ⟨rfl, mem_toSet_singleton.2 (Same.refl _)⟩⟩
  nonempty_news x hx := by
    obtain rfl := List.mem_singleton.1 hx
    exact List.cons_ne_nil _ _
  mem_left j e he := by
    constructor
    · intro h
      cases e <;> cases h
    · rintro ⟨-, s, hs⟩
      exact hs.elim
  mem_emitted j := by
    constructor
    · intro h
      cases h
    · rintro ⟨-, s, hs⟩
      exact hs.elim
  exists_node j hj := hj.elim fun _ hs => hs.elim
  instantiates _ _ _ _ hs := hs.elim
  progress m hm := absurd hm (Nat.not_lt_zero m)

/-- What is left to do is what has arrived without having been taken. -/
theorem sup_news (h : d.AfterRounds facts k ev news) :
    d.arrivalsWithin facts k ⊔ news.sets = d.arrivalsWithin facts (k + 1) := by
  rw [h.sets_news, sup_sdiff_cancel_right (arrivalsWithin_le_succ k)]

theorem stable (h : d.AfterRounds facts k ev news) (hnews : news.entries = []) :
    d.arrivalsWithin facts (k + 1) = d.arrivalsWithin facts k := by
  rw [← h.sup_news]
  refine sup_eq_left.2 fun j s hs => ?_
  obtain ⟨xs, hxs, -⟩ := NodeTable.mem_sets.1 hs
  simp [hnews] at hxs

theorem arrivalsWithin_ne (h : d.AfterRounds facts k ev news) (hnews : news.entries ≠ []) :
    d.arrivalsWithin facts (k + 1) ≠ d.arrivalsWithin facts k := by
  obtain ⟨⟨j, xs⟩, hx⟩ := List.exists_mem_of_ne_nil _ hnews
  obtain ⟨s, hs⟩ := toSet_nonempty.2 (h.nonempty_news _ hx)
  have hnew : s ∈ news.sets j := NodeTable.mem_sets.2 ⟨xs, hx, hs⟩
  rw [h.sets_news] at hnew
  exact fun heq => hnew.2 (heq ▸ hnew.1)

/-- **A round keeps what a state holds.** -/
theorem round {r : Round} (h : d.AfterRounds facts k ev news) (hnews : news.entries ≠ [])
    (hround : ev.round d news = .ok r) : d.AfterRounds facts (k + 1) r.close r.news := by
  have htakes := Evaluation.takes_round h.nonempty_news hround
  -- What is sent in the round arrives because of the news alone, and is new where it had not
  -- arrived within the rounds before.
  have hfacts : toSet ev.facts = toSet facts := by rw [h.facts_eq, toSet_ofList]
  have hincoming : r.evaluation.incoming.sets = d.arrivalsWithin facts (k + 1) := by
    rw [htakes.incoming, h.sets_incoming]
  have hsent : r.sent.sets = d.arriving facts news.sets := by
    rw [htakes.sent, arriving_congr_facts hfacts]
    funext j
    rw [Pi.sup_apply, NodeTable.sets_empty]
    exact Set.empty_union _
  have hfresh : r.news.sets = d.arriving facts news.sets \ d.arrivalsWithin facts (k + 1) := by
    funext j
    rw [Round.news, NodeTable.sets_diff, hsent, hincoming]
    rfl
  have hsucc : d.arrivalsWithin facts (k + 2) =
      d.arrivalsWithin facts (k + 1) ⊔ d.arriving facts news.sets := by
    rw [arrivalsWithin_succ_succ, h.sets_news]
  refine
    { facts_eq := htakes.facts.trans h.facts_eq
      rounds_eq := by rw [Round.close, htakes.rounds, h.rounds_eq]
      sets_incoming := ?_
      sets_news := by rw [hfresh, hsucc, sup_sdiff_left_self]
      sets_left := fun e => ?_
      sets_emitted := fun j => ?_
      nonempty_incoming := fun j hj => ?_
      nonempty_news := fun ⟨j, xs⟩ hx => ?_
      mem_left := fun j e he => ?_
      mem_emitted := fun j => ?_
      exists_node := fun j hj => ?_
      instantiates := fun j p hn s hs => ?_
      progress := fun m hm => ?_ }
  · -- What has come to the nodes grows by what is new.
    calc r.close.incoming.sets
        = r.evaluation.incoming.sets ⊔ r.news.sets := funext fun j => NodeTable.sets_addAll
      _ = d.arrivalsWithin facts (k + 2) := by rw [hincoming, hfresh, sup_sdiff_self_right, hsucc]
  · -- What the old snapshots send has left already; the round adds what the news send.
    calc (r.close.left e).sets
        = (r.evaluation.left e).sets := by cases e <;> rfl
      _ = d.leaving facts (d.arrivalsWithin facts k) e ⊔ d.leaving facts news.sets e := by
        rw [htakes.left, h.sets_left, leaving_congr_facts hfacts]
      _ = d.leaving facts (d.arrivalsWithin facts (k + 1)) e := by rw [← leaving_sup, h.sup_news]
  · rw [← h.sup_news, emission_sup, ← h.sets_emitted]
    exact htakes.emitted j
  · -- An index is listed because it was before, or because it has news.
    have hj' : j ∈ (r.evaluation.incoming.addAll r.news).indices := hj
    have hsets : r.close.incoming.sets j = r.evaluation.incoming.sets j ∪ r.news.sets j :=
      NodeTable.sets_addAll
    rw [NodeTable.mem_indices_addAll, htakes.incoming] at hj'
    rw [hsets, htakes.incoming, Set.union_nonempty]
    exact hj'.imp (h.nonempty_incoming j) NodeTable.mem_indices_diff.1
  · obtain ⟨-, -, -, hne⟩ := NodeTable.mem_entries_diff.1 hx
    exact hne
  · rw [← h.sup_news, reaches_sup, ← h.mem_left j e he, ← htakes.mem_left j e he]
    cases e <;> rfl
  · rw [← h.sup_news, reaches_sup, ← h.mem_emitted j]
    exact htakes.mem_emitted j
  · rw [← h.sup_news] at hj
    exact (Set.union_nonempty.1 hj).elim (h.exists_node j) (htakes.exists_node j)
  · rw [← h.sup_news] at hs
    exact hs.elim (h.instantiates j p hn s) (htakes.instantiates j p hn s)
  · -- The round was made because there were news.
    rcases Nat.lt_succ_iff_lt_or_eq.1 hm with hm | rfl
    · exact h.progress m hm
    · exact h.arrivalsWithin_ne hnews

end AfterRounds

theorem Stage.afterRounds (h : d.Stage facts ev news) :
    ∃ k, d.AfterRounds facts k ev news := by
  induction h with
  | start => exact ⟨0, AfterRounds.start⟩
  | round _ hnews hround ih =>
    obtain ⟨k, hk⟩ := ih
    exact ⟨k + 1, hk.round hnews hround⟩

theorem Stage.rounds_close {r : Round} (h : d.Stage facts ev news) (hnews : news.entries ≠ [])
    (hround : ev.round d news = .ok r) : r.close.rounds = ev.rounds + 1 := by
  obtain ⟨k, hk⟩ := h.afterRounds
  rw [(hk.round hnews hround).rounds_eq, hk.rounds_eq]

/-! ## How an evaluation ends -/

theorem exists_stage_of_proceed_eq_ok {remaining : ℕ} (hstage : d.Stage facts ev news)
    (h : ev.proceed d limit remaining news = .ok e) :
    ∃ last, d.Stage facts e last ∧ last.entries = [] ∧ e.rounds ≤ ev.rounds + remaining := by
  -- Induction on the rounds, from whatever stage they begin.
  fun_induction Evaluation.proceed d limit remaining ev news with
  | case1 remaining ev news hnews =>
    obtain rfl := Except.ok.inj h
    exact ⟨news, hstage, hnews, Nat.le_add_right _ _⟩
  | case2 => cases h
  | case3 ev news x xs remaining hnews ih =>
    obtain ⟨r, hround, hrest⟩ := Except.bind_eq_ok_iff.1 h
    have hne : news.entries ≠ [] := hnews ▸ List.cons_ne_nil x xs
    obtain ⟨last, hlast, hnil, hle⟩ := ih r (hstage.round hne hround) hrest
    have hclose := hstage.rounds_close hne hround
    exact ⟨last, hlast, hnil, by omega⟩

/-- An evaluation that succeeds has taken all that ever arrives. -/
theorem exists_stage_of_evaluate_eq_ok (h : d.evaluate facts limit = .ok e) :
    ∃ last, d.Stage facts e last ∧ d.AfterRounds facts e.rounds e last ∧ last.entries = [] ∧
      e.rounds ≤ limit.rounds := by
  obtain ⟨last, hlast, hnil, hle⟩ := exists_stage_of_proceed_eq_ok .start h
  obtain ⟨k, hk⟩ := hlast.afterRounds
  refine ⟨last, hlast, hk.rounds_eq.symm ▸ hk, hnil, hle.trans ?_⟩
  simp [Evaluation.start]

theorem exists_stage_of_proceed_eq_error {remaining : ℕ} {f : RunFault}
    (hstage : d.Stage facts ev news) (h : ev.proceed d limit remaining news = .error f) :
    ∃ ev' last, d.Stage facts ev' last ∧ last.entries ≠ [] ∧
      (f = .limitReached limit ∧ ev'.rounds = ev.rounds + remaining ∨
        ev'.round d last = .error f) := by
  fun_induction Evaluation.proceed d limit remaining ev news with
  | case1 => cases h
  | case2 ev news x xs hnews =>
    have hne : news.entries ≠ [] := hnews ▸ List.cons_ne_nil x xs
    exact ⟨ev, news, hstage, hne, .inl ⟨(Except.error.inj h).symm, rfl⟩⟩
  | case3 ev news x xs remaining hnews ih =>
    have hne : news.entries ≠ [] := hnews ▸ List.cons_ne_nil x xs
    cases hround : ev.round d news with
    | error f' =>
      rw [hround] at h
      obtain rfl := Except.error.inj h
      exact ⟨ev, news, hstage, hne, .inr hround⟩
    | ok r =>
      rw [hround] at h
      obtain ⟨ev', last, hlast, hlastne, hcause⟩ := ih r (hstage.round hne hround) h
      have hclose := hstage.rounds_close hne hround
      refine ⟨ev', last, hlast, hlastne, hcause.imp_left fun ⟨hf, hrounds⟩ => ⟨hf, ?_⟩⟩
      omega

/-- An evaluation fails at some stage that still has news: there the limit has been reached, or the
round itself fails. -/
theorem exists_stage_of_evaluate_eq_error {f : RunFault} (h : d.evaluate facts limit = .error f) :
    ∃ ev last, d.Stage facts ev last ∧ last.entries ≠ [] ∧
      (f = .limitReached limit ∧ ev.rounds = limit.rounds ∨ ev.round d last = .error f) := by
  obtain ⟨ev, last, hlast, hne, hcause⟩ := exists_stage_of_proceed_eq_error .start h
  refine ⟨ev, last, hlast, hne, hcause.imp_left fun ⟨hf, hrounds⟩ => ⟨hf, hrounds.trans ?_⟩⟩
  simp [Evaluation.start]

/-- All that has come to the nodes is among what arrives. -/
theorem Stage.sets_incoming_le (h : d.Stage facts ev news) :
    ev.incoming.sets ≤ d.arrivals facts := by
  obtain ⟨k, hk⟩ := h.afterRounds
  rw [hk.sets_incoming]
  exact arrivalsWithin_le_arrivals (k + 1)

/-- What is new to the nodes has come to them. -/
theorem Stage.sets_news_le (h : d.Stage facts ev news) : news.sets ≤ ev.incoming.sets := by
  obtain ⟨k, hk⟩ := h.afterRounds
  rw [hk.sets_news, hk.sets_incoming]
  exact sdiff_le

/-! ## Evaluations that nothing hinders -/

/-- All that arrives comes to nodes, and to leaves that give a fact for it. -/
structure Unhindered (d : Diagram) (facts : List Fact) : Prop where
  exists_node : ∀ i s, s ∈ d.arrivals facts i → ∃ n, d.node? i = some n
  exists_fact : ∀ i p, d.node? i = some (.leaf p) → ∀ s ∈ d.arrivals facts i,
    ∃ f, instantiate p s = .ok f

theorem Stage.exists_round (h : d.Stage facts ev news) (hd : d.Unhindered facts) :
    ∃ r, ev.round d news = .ok r := by
  obtain ⟨k, hk⟩ := h.afterRounds
  refine ev.exists_round fun ⟨i, fresh⟩ hx => ?_
  have hmem (s : Snapshot) (hs : s ∈ toSet fresh) : s ∈ d.arrivals facts i :=
    h.sets_incoming_le i (h.sets_news_le i (NodeTable.mem_sets.2 ⟨fresh, hx, hs⟩))
  obtain ⟨s, hs⟩ := toSet_nonempty.2 (hk.nonempty_news _ hx)
  obtain ⟨n, hn⟩ := hd.exists_node i s (hmem s hs)
  exact ⟨n, hn, fun p hp s hs => hd.exists_fact i p (hp ▸ hn) s (hmem s (mem_toSet_of_mem hs))⟩

namespace Unhindered

/-- Where nothing hinders an evaluation, it fails at its limit alone, and then every round up to
there has brought something new. -/
theorem eq_limitReached (hd : d.Unhindered facts) {f : RunFault}
    (h : d.evaluate facts limit = .error f) : f = .limitReached limit ∧
      ∀ m ≤ limit.rounds, d.arrivalsWithin facts (m + 1) ≠ d.arrivalsWithin facts m := by
  obtain ⟨ev, last, hstage, hne, ⟨hf, hrounds⟩ | hround⟩ := exists_stage_of_evaluate_eq_error h
  · -- The limit was reached at a stage that still had news.
    obtain ⟨k, hk⟩ := hstage.afterRounds
    obtain rfl : k = limit.rounds := hk.rounds_eq.symm.trans hrounds
    refine ⟨hf, fun m hm => ?_⟩
    rcases Nat.lt_or_eq_of_le hm with hm | rfl
    · exact hk.progress m hm
    · exact hk.arrivalsWithin_ne hne
  · -- No round fails.
    obtain ⟨r, hr⟩ := hstage.exists_round hd
    rw [hr] at hround
    cases hround

/-- Nothing but its limit can end such an evaluation without a result. -/
theorem evaluate_eq_ok_or_limitReached (hd : d.Unhindered facts) (limit : RoundLimit) :
    (∃ e, d.evaluate facts limit = .ok e) ∨
      d.evaluate facts limit = .error (.limitReached limit) := by
  cases h : d.evaluate facts limit with
  | ok e => exact .inl ⟨e, rfl⟩
  | error f => exact .inr (by rw [(hd.eq_limitReached h).1])

/-- Where a round within the limit brings nothing new, the evaluation succeeds. -/
theorem exists_evaluate_eq_ok (hd : d.Unhindered facts) {k : ℕ} (hk : k ≤ limit.rounds)
    (hstable : d.arrivalsWithin facts (k + 1) = d.arrivalsWithin facts k) :
    ∃ e, d.evaluate facts limit = .ok e := by
  cases h : d.evaluate facts limit with
  | ok e => exact ⟨e, rfl⟩
  | error f => exact absurd hstable ((hd.eq_limitReached h).2 k hk)

end Unhindered

end Diagram

end RuleDiagram
