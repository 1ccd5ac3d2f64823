import RuleDiagram.Proofs.Diagram.Nodes
import RuleDiagram.Proofs.Run.Safety
import RuleDiagram.Proofs.Run.Simulation

/-!
# Evaluation respects sameness

Constants that are the same do not tell diagrams apart, and neither order nor repetitions nor the
form of values tell lists of facts apart that make up the same set. An evaluation sees none of this:
nodes that are the same do the same for every snapshot, and facts matter as a set alone. So of two
diagrams that are the same, on facts that make up the same set, either both evaluations end at their
limit, or both succeed and agree in every field, the number of rounds included.

## Main results

* `Diagram.alikeOn_of_same`: diagrams that are the same do the same
* `Diagram.arrivalsWithin_congr_facts`: the same arrives for facts that make up the same set
* `Diagram.evaluate_congr`: evaluation respects sameness of diagrams and of sets of facts
-/

namespace RuleDiagram

open ListSet

/-! ## Agreement in two steps -/

section Agreement

variable {α : Type} [Canonical α] [DecidableEq α] {t u v : NodeTable α} {e e' e'' : Evaluation}

theorem NodeTable.Agrees.trans (h : t.Agrees u) (h' : u.Agrees v) : t.Agrees v where
  indices i := (h.indices i).trans (h'.indices i)
  get i := equal_iff.2 ((equal_iff.1 (h.get i)).trans (equal_iff.1 (h'.get i)))

theorem Evaluation.SameSets.trans (h : e.SameSets e') (h' : e'.SameSets e'') : e.SameSets e'' where
  facts := equal_iff.2 ((equal_iff.1 h.facts).trans (equal_iff.1 h'.facts))
  incoming := h.incoming.trans h'.incoming
  matched := h.matched.trans h'.matched
  refuted := h.refuted.trans h'.refuted
  emitted := h.emitted.trans h'.emitted
  outputs := equal_iff.2 ((equal_iff.1 h.outputs).trans (equal_iff.1 h'.outputs))

theorem Evaluation.Agrees.trans (h : e.Agrees e') (h' : e'.Agrees e'') : e.Agrees e'' :=
  ⟨h.toSameSets.trans h'.toSameSets, h.rounds.trans h'.rounds⟩

end Agreement

variable {d d' : Diagram} {facts more : List Fact} {S : Family} {e : Evaluation}
  {limit : RoundLimit} {i : Int} {s : Snapshot} {n m : Node}

/-! ## Diagrams that are the same -/

theorem Node.alikeOn_of_same (h : Same n m) : n.AlikeOn m facts s where
  isBranch := by
    rcases same_iff.1 h with ⟨p, q, a, b, rfl, rfl, -⟩ | ⟨p, q, rfl, rfl, -⟩ <;> rfl
  children := by
    rcases same_iff.1 h with ⟨p, q, a, b, rfl, rfl, -⟩ | ⟨p, q, rfl, rfl, -⟩ <;> rfl
  sends _ := (sends_mono h subset_rfl (Same.refl s)).antisymm
    (sends_mono h.symm subset_rfl (Same.refl s))
  emits := (emits_mono h (Same.refl s)).antisymm (emits_mono h.symm (Same.refl s))

namespace Diagram

theorem same_iff : Same d d' ↔ List.Forall₂ Same d.nodes d'.nodes ∧ d.root = d'.root := by
  obtain ⟨nodes, root⟩ := d
  obtain ⟨nodes', root'⟩ := d'
  rw [← same_list_iff]
  exact Diagram.mk.injEq _ _ _ _ ▸ Iff.rfl

/-- A node has a counterpart under the same index. -/
theorem exists_node?_of_same (h : Same d d') (hn : d.node? i = some n) :
    ∃ n', d'.node? i = some n' ∧ Same n n' := by
  obtain ⟨hnodes, -⟩ := same_iff.1 h
  obtain ⟨place, hplace, hget⟩ := Option.bind_eq_some_iff.1 hn
  obtain ⟨hlt, rfl⟩ := List.getElem?_eq_some_iff.1 hget
  have hlt' : place < d'.nodes.length := hnodes.length_eq ▸ hlt
  refine ⟨d'.nodes[place], ?_, hnodes.get hlt hlt'⟩
  have hsize : d'.size = d.size := hnodes.length_eq.symm
  rw [node?, hsize, hplace, Option.bind_some, List.getElem?_eq_getElem hlt']

/-- Diagrams that are the same do the same for all snapshots that come to nodes. -/
theorem alikeOn_of_same (h : Same d d') (hS : ∀ i s, s ∈ S i → ∃ n, d.node? i = some n) :
    d.AlikeOn d' facts S where
  root := (same_iff.1 h).2
  node i s hs := by
    obtain ⟨n, hn⟩ := hS i s hs
    obtain ⟨n', hn', hsame⟩ := exists_node?_of_same h hn
    exact ⟨n, n', hn, hn', Node.alikeOn_of_same hsame⟩

/-- Where nothing hinders an evaluation, nothing hinders one that does the same. -/
theorem AlikeOn.unhindered (h : d.AlikeOn d' facts (d.arrivals facts)) (hd : d.Unhindered facts) :
    d'.Unhindered facts := by
  have harrivals : d'.arrivals facts ≤ d.arrivals facts := by
    refine OrderHom.lfp_le _ ?_
    rw [advance_apply, ← h.arriving_eq le_rfl]
    have hentering : d'.entering = d.entering := by
      unfold entering
      rw [h.root]
    rw [hentering, ← advance_apply]
    exact (OrderHom.map_lfp (d.advance facts)).le
  refine ⟨fun i s hs => ?_, fun i p hn s hs => ?_⟩
  · obtain ⟨n, n', -, hn', -⟩ := h.node i s (harrivals i hs)
    exact ⟨n', hn'⟩
  · -- The counterpart is a leaf that emits the same, and it emits something.
    obtain ⟨n, n', hn', hp, halike⟩ := h.node i s (harrivals i hs)
    obtain rfl := Option.some_inj.1 (hn.symm.trans hp)
    cases n with
    | branch q a b => cases halike.isBranch
    | leaf q =>
      obtain ⟨f, hf⟩ := hd.exists_fact i q hn' s (harrivals i hs)
      have hmem : f ∈ (Node.leaf q).emits s := ⟨f, hf, Same.refl f⟩
      rw [halike.emits] at hmem
      obtain ⟨g, hg, -⟩ := hmem
      exact ⟨g, hg⟩

/-! ## Facts that make up the same set -/

theorem arrivalsWithin_congr_facts (hfacts : toSet facts = toSet more) (k : ℕ) :
    d.arrivalsWithin facts k = d.arrivalsWithin more k := by
  induction k with
  | zero => rfl
  | succ k ih => rw [arrivalsWithin_succ, arrivalsWithin_succ, ih, arriving_congr_facts hfacts]

theorem arrivals_congr_facts (hfacts : toSet facts = toSet more) :
    d.arrivals facts = d.arrivals more := by
  have hadvance : d.advance facts = d.advance more := by
    ext S : 2
    rw [advance_apply, advance_apply, arriving_congr_facts hfacts]
  rw [arrivals, arrivals, hadvance]

theorem Unhindered.congr_facts (hd : d.Unhindered facts) (hfacts : toSet facts = toSet more) :
    d.Unhindered more where
  exists_node := arrivals_congr_facts hfacts ▸ hd.exists_node
  exists_fact := arrivals_congr_facts hfacts ▸ hd.exists_fact

/-- An evaluation on one list of facts gives one on every other list of the same set. -/
theorem Unhindered.exists_evaluate_of_facts (hd : d.Unhindered facts)
    (hfacts : toSet facts = toSet more) (he : d.evaluate facts limit = .ok e) :
    ∃ e', d.evaluate more limit = .ok e' ∧ e.Agrees e' :=
  (hd.congr_facts hfacts).exists_evaluate_agrees hfacts (arrivalsWithin_congr_facts hfacts)
    (fun _ => leaving_congr_facts hfacts) (fun _ => rfl) (fun _ _ => Iff.rfl) he

/-! ## Both at once -/

/-- Where nothing hinders an evaluation, nothing hinders one of the same diagram on the same set. -/
theorem Unhindered.congr (hd : d.Unhindered facts) (hsame : Same d d')
    (hfacts : toSet facts = toSet more) : d'.Unhindered more :=
  ((alikeOn_of_same hsame hd.exists_node).unhindered hd).congr_facts hfacts

theorem Unhindered.exists_evaluate_of_same (hd : d.Unhindered facts) (hsame : Same d d')
    (hfacts : toSet facts = toSet more) (he : d.evaluate facts limit = .ok e) :
    ∃ e', d'.evaluate more limit = .ok e' ∧ e.Agrees e' := by
  have halike : d.AlikeOn d' facts (d.arrivals facts) := alikeOn_of_same hsame hd.exists_node
  have hd' : d'.Unhindered facts := halike.unhindered hd
  -- First the diagram is exchanged, then the facts.
  obtain ⟨e', he', hagrees⟩ := halike.exists_evaluate_agrees hd' he
  obtain ⟨e'', he'', hagrees'⟩ := hd'.exists_evaluate_of_facts hfacts he'
  exact ⟨e'', he'', hagrees.trans hagrees'⟩

/-- **Evaluation respects sameness.** A diagram that is the same as a well-formed one, on facts that
make up the same set, reaches the limit if that one does, and otherwise both evaluations succeed and
agree in every field. -/
theorem evaluate_congr {registry : Option Registry} (hd : d.validate registry = .ok d)
    (hsame : Same d d') (hfacts : ListSet.equal facts more = true) (limit : RoundLimit) :
    (∃ e e', d.evaluate facts limit = .ok e ∧ d'.evaluate more limit = .ok e' ∧ e.Agrees e') ∨
      (d.evaluate facts limit = .error (.limitReached limit) ∧
        d'.evaluate more limit = .error (.limitReached limit)) := by
  have hset : toSet facts = toSet more := equal_iff.1 hfacts
  have hwell : d.WellFormed := wellFormed_of_fault?_eq_none (validate_eq_ok_iff.1 hd).1
  have hfree : d.Unhindered facts := hwell.unhindered facts
  have hfree' : d'.Unhindered more := hfree.congr hsame hset
  rcases hfree.evaluate_eq_ok_or_limitReached limit with ⟨e, he⟩ | hlimit
  · obtain ⟨e', he', hagrees⟩ := hfree.exists_evaluate_of_same hsame hset he
    exact .inl ⟨e, e', he, he', hagrees⟩
  · refine .inr ⟨hlimit, ?_⟩
    rcases hfree'.evaluate_eq_ok_or_limitReached limit with ⟨e', he'⟩ | hlimit'
    · -- A result of the second would be one of the first.
      obtain ⟨e, he, -⟩ := hfree'.exists_evaluate_of_same hsame.symm hset.symm he'
      rw [he] at hlimit
      cases hlimit
    · exact hlimit'

end Diagram

namespace Forms

def step : Predicate := ⟨"step", 2⟩
def reached : Predicate := ⟨"reached", 1⟩

/-- What steps lead to from the value one, which is given in some form. The second branch sends back
to itself. -/
def diagram (one : Value) : Diagram :=
  ⟨[.branch ⟨some step, [.constant one, .free 0]⟩ (some 1) none,
    .branch ⟨some step, [.reference 0, .free 0]⟩ (some 1) (some 2),
    .leaf ⟨some reached, [.reference 0]⟩], 0⟩

/-- Steps from one to two and back, with numbers as integers. -/
def whole : List Fact :=
  [⟨step, [.int 1, .int 2], rfl⟩, ⟨step, [.int 2, .int 1], rfl⟩]

/-- The same steps in the other order, some twice, with truth values and floating-point numbers. -/
def mixed : List Fact :=
  [⟨step, [.float (.ofInt 2), .bool true], rfl⟩, ⟨step, [.bool true, .int 2], rfl⟩,
    ⟨step, [.int 2, .float (.ofInt 1)], rfl⟩]

/-- The form in which the steps and the start are given does not matter: what is found is the same,
in other forms. -/
theorem evaluate_congr_mixed : ∃ e e', (diagram (.int 1)).evaluate whole .standard = .ok e ∧
    (diagram (.bool true)).evaluate mixed .standard = .ok e' ∧
    e.outputs = [⟨reached, [.int 2], rfl⟩, ⟨reached, [.int 1], rfl⟩] ∧ e.Agrees e' := by
  have hvalid : (diagram (.int 1)).validate none = .ok (diagram (.int 1)) := rfl
  have hsame : Same (diagram (.int 1)) (diagram (.bool true)) := by decide
  have hfacts : ListSet.equal whole mixed = true := by decide +kernel
  have houtputs : ((diagram (.int 1)).evaluate whole .standard).toOption.any fun e =>
      decide (e.outputs = [⟨reached, [.int 2], rfl⟩, ⟨reached, [.int 1], rfl⟩]) := by
    decide
  obtain ⟨e, he, hout⟩ := Except.exists_of_any_toOption houtputs
  rcases Diagram.evaluate_congr hvalid hsame hfacts .standard with
    ⟨e₁, e₂, he₁, he₂, hagrees⟩ | ⟨hlimit, -⟩
  · obtain rfl := Except.ok.inj (he.symm.trans he₁)
    exact ⟨e, e₂, he, he₂, of_decide_eq_true hout, hagrees⟩
  · rw [he] at hlimit
    cases hlimit

end Forms

end RuleDiagram
