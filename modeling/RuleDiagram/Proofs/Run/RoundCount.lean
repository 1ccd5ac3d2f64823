import RuleDiagram.Proofs.Run.Safety

/-!
# How many rounds an evaluation takes

Registers are written by free terms alone, and what they hold are values of the facts. So only
finitely many snapshots can come to a node, and each round brings one that was not there before: an
evaluation takes a number of rounds that is bounded by the size of the diagram, its registers and
the values of the facts. The limit on rounds has no part in this. From that number on, evaluations
end with the same result whatever their limit is, and below it they fail at their limit.

## Main definitions

* `Diagram.writtenRegisters`, `valuesOf`: the registers that free terms write, and the values of
  facts
* `Snapshot.Within`: snapshots made of given registers and values

## Main results

* `Diagram.arrivals_le_within`: all that arrives is made of the registers written and the values of
  the facts
* `Diagram.WellFormed.le_of_progress`: only so many rounds can bring something new
* `Diagram.exists_roundCount`: the number of rounds, and what it means for a limit
-/

namespace RuleDiagram

variable {d : Diagram} {facts : List Fact} {R : Finset Int} {V : Finset Value} {s t : Snapshot}
  {p : Pattern} {i r : Int} {v : Value} {ev e : Evaluation} {news : NodeTable Snapshot}
  {limit : RoundLimit}

/-! ## Registers and values that snapshots are made of -/

/-- The registers that free terms of a diagram write. -/
def Diagram.writtenRegisters (d : Diagram) : Finset Int :=
  (d.nodes.flatMap fun n => n.pattern.writes).toFinset

/-- The values of facts, values that are the same counted once. -/
def valuesOf (facts : List Fact) : Finset Value :=
  ((facts.flatMap Fact.values).map canonical).toFinset

theorem Diagram.mem_writtenRegisters_of_node? {n : Node} (hn : d.node? i = some n)
    (hr : .free r ∈ n.pattern.terms) : r ∈ d.writtenRegisters :=
  List.mem_toFinset.2 (List.mem_flatMap.2 ⟨n, mem_nodes_of_node? hn, Pattern.mem_writes.2 hr⟩)

theorem canonical_mem_valuesOf {f : Fact} (hf : f ∈ facts) (hv : v ∈ f.values) :
    canonical v ∈ valuesOf facts :=
  List.mem_toFinset.2 (List.mem_map_of_mem (List.mem_flatMap.2 ⟨f, hf, hv⟩))

namespace Snapshot

/-- Only some registers are bound, and only to some values, up to sameness. -/
def Within (R : Finset Int) (V : Finset Value) (s : Snapshot) : Prop :=
  ∀ r v, s.get? r = some v → r ∈ R ∧ canonical v ∈ V

theorem within_empty : Within R V .empty := by
  intro r v h
  cases h

theorem Within.of_same (h : s.Within R V) (hst : Same s t) : t.Within R V := by
  intro r v hv
  have hsame := same_iff_get?.1 hst r
  cases hw : s.get? r with
  | none => exact absurd (hv ▸ hw ▸ hsame) not_same_none_some
  | some w =>
    obtain ⟨hr, hwV⟩ := h r w hw
    rw [hw, hv, same_some_iff] at hsame
    exact ⟨hr, hsame ▸ hwV⟩

theorem Within.bind (h : s.Within R V) (hr : r ∈ R) (hv : canonical v ∈ V) :
    (s.bind r v).Within R V := by
  refine Within.of_same (s := s.set r v) (fun r' w hw => ?_) (same_iff_get?.2 fun r' => ?_)
  · rw [get?_set] at hw
    split at hw
    · next heq => exact ⟨heq ▸ hr, Option.some_inj.1 hw ▸ hv⟩
    · exact h r' w hw
  · rw [get?_set]
    exact (same_get?_bind s r v r').symm

/-- What a snapshot holds in some registers, up to sameness. -/
def held (R : Finset Int) (s : Snapshot) : (r : Int) → r ∈ R → Option Value :=
  fun r _ => (s.get? r).map canonical

/-- The ways to hold some values or nothing in some registers. -/
def holdings (R : Finset Int) (V : Finset Value) : Finset ((r : Int) → r ∈ R → Option Value) :=
  R.pi fun _ => V.insertNone

theorem card_holdings : (holdings R V).card = (V.card + 1) ^ R.card := by
  simp only [holdings, Finset.card_pi, Finset.card_insertNone, Finset.prod_const]

theorem Within.held_mem_holdings (h : s.Within R V) : s.held R ∈ holdings R V := by
  refine Finset.mem_pi.2 fun r _ => Finset.mem_insertNone.2 fun v hv => ?_
  obtain ⟨w, hw, rfl⟩ := Option.map_eq_some_iff.1 hv
  exact (h r w hw).2

/-- A snapshot is determined, up to sameness, by what it holds in the registers it may bind. -/
theorem Within.same_of_held_eq (hs : s.Within R V) (ht : t.Within R V)
    (heq : s.held R = t.held R) : Same s t := by
  refine same_iff_get?.2 fun r => ?_
  by_cases hr : r ∈ R
  · exact congrFun (congrFun heq r) hr
  · have hunbound {u : Snapshot} (hu : u.Within R V) : u.get? r = none :=
      Option.eq_none_iff_forall_ne_some.2 fun v hv => hr (hu r v hv).1
    rw [hunbound hs, hunbound ht]

end Snapshot

/-! ## Snapshots that arrive -/

theorem Term.within_of_unify {a : Term} (h : a.unify v s = some t) (hs : s.Within R V)
    (ha : ∀ r, a = .free r → r ∈ R) (hv : canonical v ∈ V) : t.Within R V := by
  cases a with
  | constant c =>
    rw [unify, Option.ite_none_right_eq_some] at h
    exact Option.some_inj.1 h.2 ▸ hs
  | reference r =>
    rw [unify, Option.ite_none_right_eq_some] at h
    exact Option.some_inj.1 h.2 ▸ hs
  | free r =>
    rw [unify, Option.some_inj] at h
    exact h ▸ hs.bind (ha r rfl) hv

theorem within_of_unify {ts : List Term} {vs : List Value} (h : unify ts vs s = some t)
    (hs : s.Within R V) (hts : ∀ r, .free r ∈ ts → r ∈ R) (hvs : ∀ v ∈ vs, canonical v ∈ V) :
    t.Within R V := by
  -- Induction on the terms, each of which meets one of the values.
  induction ts generalizing vs s with
  | nil => exact Option.some_inj.1 h ▸ hs
  | cons a ts ih =>
    cases vs with
    | nil => exact Option.some_inj.1 h ▸ hs
    | cons v vs =>
      obtain ⟨u, hu, hrest⟩ := unify_cons_eq_some.1 h
      have hstep : u.Within R V := Term.within_of_unify hu hs
        (fun r hr => hts r (hr ▸ List.mem_cons_self)) (hvs v List.mem_cons_self)
      exact ih hrest hstep (fun r hr => hts r (List.mem_cons_of_mem a hr))
        fun w hw => hvs w (List.mem_cons_of_mem v hw)

theorem Pattern.Delivers.within {edge : Edge} (h : p.Delivers facts edge s t)
    (hs : s.Within R (valuesOf facts)) (hp : ∀ r, .free r ∈ p.terms → r ∈ R) :
    t.Within R (valuesOf facts) := by
  cases edge with
  | root => exact h.elim
  | onMatch =>
    rcases h with ⟨-, rfl⟩ | ⟨f, hf, -, hunify⟩
    · exact hs
    · exact within_of_unify hunify hs hp fun v hv => canonical_mem_valuesOf hf hv
  | onRefute => exact h.1 ▸ hs

namespace Diagram

/-- **All that arrives is made of the registers that free terms write and the values of the
facts.** -/
theorem arrivals_le_within :
    d.arrivals facts ≤ fun _ => {s | s.Within d.writtenRegisters (valuesOf facts)} := by
  have hclosed : d.Closed facts fun _ => {s | s.Within d.writtenRegisters (valuesOf facts)} :=
    { same := fun hst hs => Snapshot.Within.of_same hs hst
      root := Snapshot.within_empty
      onMatch := fun {i p m f s t} hn hs ht => by
        obtain ⟨_, hs', hdelivers⟩ := mem_onMatch_propagate.1 ht
        obtain rfl := List.mem_singleton.1 hs'
        exact hdelivers.within hs fun r hr => mem_writtenRegisters_of_node? hn hr
      onRefute := fun {i p m f s t} hn hs ht => by
        obtain ⟨_, hs', hdelivers⟩ := mem_onRefute_propagate.1 ht
        obtain rfl := List.mem_singleton.1 hs'
        exact hdelivers.within hs fun r hr => mem_writtenRegisters_of_node? hn hr }
  exact isLeast_arrivals.2 hclosed

theorem mem_arrivalsWithin_of_same {k : ℕ} (hst : Same s t) (hs : s ∈ d.arrivalsWithin facts k i) :
    t ∈ d.arrivalsWithin facts k i := by
  cases k with
  | zero => exact hs.elim
  | succ k =>
    rw [arrivalsWithin_succ] at hs ⊢
    rcases hs with ⟨hi, hs⟩ | ⟨i', n, e, hn, he, n', hn', s', hs', hs⟩
    · exact .inl ⟨hi, hs.trans hst⟩
    · exact .inr ⟨i', n, e, hn, he, n', hn', s', hs', Node.mem_sends_of_same hst hs⟩

theorem exists_new_of_arrivalsWithin_ne {k : ℕ}
    (h : d.arrivalsWithin facts (k + 1) ≠ d.arrivalsWithin facts k) :
    ∃ i, ∃ s ∈ d.arrivalsWithin facts (k + 1) i, s ∉ d.arrivalsWithin facts k i := by
  by_contra! hnone
  exact h (le_antisymm (fun i s hs => hnone i s hs) (arrivalsWithin_le_succ k))

/-- **Only so many rounds can bring something new.** Each of them brings an index in range a
snapshot that had not come there, and there are only so many snapshots. -/
theorem WellFormed.le_of_progress (hd : d.WellFormed) {k : ℕ}
    (h : ∀ m < k, d.arrivalsWithin facts (m + 1) ≠ d.arrivalsWithin facts m) :
    k ≤ d.size * ((valuesOf facts).card + 1) ^ d.writtenRegisters.card := by
  have hnew (m : Fin k) := exists_new_of_arrivalsWithin_ne (h m m.isLt)
  choose index fresh harrives hfresh using hnew
  have harrivals (m : Fin k) : fresh m ∈ d.arrivals facts (index m) :=
    arrivalsWithin_le_arrivals _ _ (harrives m)
  have hwithin (m : Fin k) : (fresh m).Within d.writtenRegisters (valuesOf facts) :=
    arrivals_le_within _ (harrivals m)
  -- What is new in a later round had not come within an earlier one.
  have hearlier {m m' : Fin k} (hlt : m < m') (hindex : index m = index m')
      (hsame : Same (fresh m) (fresh m')) : False := by
    have hle : d.arrivalsWithin facts (m + 1) ≤ d.arrivalsWithin facts m' :=
      arrivalsWithin_mono (Nat.succ_le_of_lt hlt)
    exact hfresh m' (mem_arrivalsWithin_of_same hsame (hindex ▸ hle _ (harrives m)))
  -- So the rounds have different indices or different holdings of the registers.
  let place (m : Fin k) := (index m, (fresh m).held d.writtenRegisters)
  have hinjective : Function.Injective place := by
    intro m m' heq
    obtain ⟨hindex, hheld⟩ := Prod.mk.inj heq
    have hsame := (hwithin m).same_of_held_eq (hwithin m') hheld
    rcases lt_trichotomy m m' with hlt | heq | hlt
    · exact (hearlier hlt hindex hsame).elim
    · exact heq
    · exact (hearlier hlt hindex.symm hsame.symm).elim
  have hmem (m : Fin k) :
      place m ∈ d.indices ×ˢ Snapshot.holdings d.writtenRegisters (valuesOf facts) :=
    Finset.mem_product.2 ⟨mem_indices.2 (hd.inRange_of_mem_arrivals (harrivals m)),
      (hwithin m).held_mem_holdings⟩
  calc k = (Finset.univ : Finset (Fin k)).card := (Finset.card_fin k).symm
    _ ≤ (d.indices ×ˢ Snapshot.holdings d.writtenRegisters (valuesOf facts)).card :=
      Finset.card_le_card_of_injOn place (fun m _ => hmem m) hinjective.injOn
    _ = d.indices.card * ((valuesOf facts).card + 1) ^ d.writtenRegisters.card := by
      rw [Finset.card_product, Snapshot.card_holdings]
    _ ≤ d.size * ((valuesOf facts).card + 1) ^ d.writtenRegisters.card :=
      Nat.mul_le_mul_right _ card_indices_le

/-! ## The limit on rounds -/

/-- **What rounds a limit leaves does not matter to the result.** Rounds that come to an end do so
wherever enough of them remain, with the same result, and where too few remain the limit is
reached. -/
theorem Stage.proceed_of_ok {remaining : ℕ} (hstage : d.Stage facts ev news)
    (h : ev.proceed d limit remaining news = .ok e) :
    ev.rounds ≤ e.rounds ∧ ∀ (other : RoundLimit) (others : ℕ),
      (e.rounds ≤ ev.rounds + others → ev.proceed d other others news = .ok e) ∧
      (ev.rounds + others < e.rounds →
        ev.proceed d other others news = .error (.limitReached other)) := by
  -- Induction on the rounds: nothing is new, or none remains, or one is taken.
  fun_induction Evaluation.proceed d limit remaining ev news with
  | case1 remaining ev news hnews =>
    obtain rfl := Except.ok.inj h
    exact ⟨le_rfl, fun other others =>
      ⟨fun _ => Evaluation.proceed.eq_1 d other ev news others hnews, fun hlt => by omega⟩⟩
  | case2 => cases h
  | case3 ev news x xs remaining hnews ih =>
    obtain ⟨r, hround, hrest⟩ := Except.bind_eq_ok_iff.1 h
    have hne : news.entries ≠ [] := hnews ▸ List.cons_ne_nil x xs
    obtain ⟨hle, hothers⟩ := ih r (hstage.round hne hround) hrest
    have hclose := hstage.rounds_close hne hround
    refine ⟨by omega, fun other others => ?_⟩
    -- The other limit has no round left, or takes the same round.
    cases others with
    | zero =>
      refine ⟨fun h => by omega, fun _ => ?_⟩
      exact Evaluation.proceed.eq_2 d other ev news x xs hnews
    | succ others =>
      obtain ⟨hok, hlimit⟩ := hothers other others
      rw [Evaluation.proceed.eq_3 d other ev news others x xs hnews, hround]
      exact ⟨fun h => hok (by omega), fun h => hlimit (by omega)⟩

/-- **An evaluation of a well-formed diagram takes a number of rounds of its own**, at least one and
at most the number of nodes times the number of snapshots over the registers written and the values
of the facts. A limit of so many rounds or more leaves the result as it is, and a lower one is
reached. -/
theorem exists_roundCount {registry : Option Registry} (h : d.validate registry = .ok d)
    (facts : List Fact) :
    ∃ r e, 1 ≤ r ∧ r ≤ d.size * ((valuesOf facts).card + 1) ^ d.writtenRegisters.card ∧
      e.rounds = r ∧ ∀ limit : RoundLimit, (r ≤ limit.rounds → d.evaluate facts limit = .ok e) ∧
        (limit.rounds < r → d.evaluate facts limit = .error (.limitReached limit)) := by
  have hd := wellFormed_of_fault?_eq_none (validate_eq_ok_iff.1 h).1
  let bound := d.size * ((valuesOf facts).card + 1) ^ d.writtenRegisters.card
  -- A limit above the bound suffices.
  obtain ⟨e, he⟩ : ∃ e, d.evaluate facts ⟨bound + 1, Nat.succ_pos _⟩ = .ok e := by
    cases hevaluate : d.evaluate facts ⟨bound + 1, Nat.succ_pos _⟩ with
    | ok e => exact ⟨e, rfl⟩
    | error f =>
      have hprogress := ((hd.unhindered facts).eq_limitReached hevaluate).2
      exact absurd (hd.le_of_progress fun m hm => hprogress m hm.le) (Nat.not_succ_le_self bound)
  obtain ⟨last, -, hafter, -, -⟩ := exists_stage_of_evaluate_eq_ok he
  have hothers := (Stage.proceed_of_ok .start he).2
  have hstart : (Evaluation.start d facts).rounds = 0 := rfl
  refine ⟨e.rounds, e, ?_, hd.le_of_progress hafter.progress, rfl, fun limit => ?_⟩
  · -- The root is new to begin with, so that no evaluation ends without a round.
    by_contra hzero
    have hnone := (hothers ⟨1, Nat.one_pos⟩ 0).1 (by omega)
    simp [Evaluation.proceed, Evaluation.start, NodeTable.single] at hnone
  · obtain ⟨hok, hlimit⟩ := hothers limit limit.rounds
    rw [hstart, Nat.zero_add] at hok hlimit
    exact ⟨hok, hlimit⟩

end Diagram

/-- In the cycle there are five nodes, two registers and three values. -/
theorem Reachability.roundCount_circle : diagram.validate none = .ok diagram ∧
    ∃ r e, 1 ≤ r ∧ r ≤ 5 * (3 + 1) ^ 2 ∧ e.rounds = r ∧
      ∀ limit : RoundLimit, (r ≤ limit.rounds → diagram.evaluate circle limit = .ok e) ∧
        (limit.rounds < r → diagram.evaluate circle limit = .error (.limitReached limit)) := by
  have hvalid : diagram.validate none = .ok diagram := rfl
  have hvalues : (valuesOf circle).card = 3 := by decide
  have hregisters : diagram.writtenRegisters.card = 2 := by decide
  obtain ⟨r, e, hpos, hle, hlimit⟩ := Diagram.exists_roundCount hvalid circle
  rw [hvalues, hregisters] at hle
  exact ⟨hvalid, r, e, hpos, hle, hlimit⟩

end RuleDiagram
