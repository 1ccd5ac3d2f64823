import RuleDiagram.Proofs.Number.Whole
import RuleDiagram.Proofs.Search.Perfect

/-!
# The usual fitness is a whole number

The usual scoring deducts a whole number for each example, so that the fitness of a diagram is minus
a natural number, up to the rounding of very large ones. Whether a diagram is perfect is told in
another way, by comparing sets of facts, and the two ways agree for all lists of examples: nothing
is deducted exactly where every evaluation ends with the facts that are desired.

## Main definitions

* `Scoring.usual`: the usual scorer and penalty
* `Example.deduction`, `Diagram.deductions`: what is deducted for an example, and for each of a list
* `Binary64.minus`: minus a natural number

## Main results

* `Scoring.score_usual`: a score is minus what is deducted
* `Scoring.card_usual`: every well-formed diagram has a card
* `Scoring.usual_exact`: the fitness as a whole number, and when it is zero
-/

namespace RuleDiagram

/-! ## Minus a natural number -/

namespace Binary64

variable {x : Binary64} {n : ℕ}

/-- Minus a natural number, rounded if it is very large. -/
def minus (n : ℕ) : Binary64 := (ofInt n).neg

theorem stands_minus (h : n ≤ wholeBound) : (minus n).Stands (-(n : ℤ)) :=
  (stands_ofInt (by rwa [Int.natAbs_natCast])).neg

theorem position_minus : (minus n).position = 0 ↔ n = 0 := (Scoring.nonpositive_neg_ofInt n).2

/-- **A sum of numbers that are not positive** is not rounded if it is not very large. -/
theorem whole?_sum_minus {ns : List ℕ} (h : ns.sum ≤ wholeBound) :
    (sum (ns.map minus)).whole? = some (-(ns.sum : ℤ)) := by
  refine whole?_eq_some_iff.2 (stands_sum ?_ h)
  rw [List.forall₂_map_left_iff, List.forall₂_same]
  intro n hn
  exact stands_minus (Nat.le_trans (List.le_sum_of_mem hn) h)

theorem Nonpositive.atMost_zero (h : x.Nonpositive) : x.atMost zero = true := by
  have hzero : zero.isUndefined = false := isUndefined_eq_false_of_isFinite (by decide +kernel)
  simp only [atMost, h.defined, hzero, Bool.not_false, Bool.true_and, decide_eq_true_eq]
  exact h.position_le

end Binary64

/-! ## What is deducted -/

/-- What is deducted for an example: one for each fact that is emitted and not desired, and two for
each that is desired and not emitted; or one more than for emitting nothing, if the evaluation did
not come to an end. -/
def Example.deduction (x : Example) : Option Evaluation → ℕ
  | some e =>
    (ListSet.diff e.outputs x.outputs).length + 2 * (ListSet.diff x.outputs e.outputs).length
  | none => 2 * x.outputs.length + 1

/-- What is deducted for each of a list of examples. -/
def Diagram.deductions (d : Diagram) (examples : List Example) (limit : RoundLimit) : List ℕ :=
  examples.map fun x => x.deduction (d.evaluate x.inputs limit).toOption

namespace Scoring

variable {d : Diagram} {examples : List Example} {limit : RoundLimit} {registry : Option Registry}

/-- The usual scorer with the usual penalty. -/
def usual (examples : List Example) (limit : RoundLimit) : Scoring :=
  ⟨examples, .agreement, .standard, limit⟩

theorem deducts_usual (examples : List Example) (limit : RoundLimit) :
    (usual examples limit).Deducts := deducts_agreement examples limit

/-- **A score is minus what is deducted.** -/
theorem score_usual (x : Example) (ev : Option Evaluation) :
    ((usual examples limit).scoreOf x ev).score = .minus (x.deduction ev) := by
  cases ev with
  | none => rfl
  | some e =>
    rw [Binary64.minus, Example.deduction]
    push_cast
    rfl

/-- Nothing is deducted exactly for examples that are correct. -/
theorem deduction_eq_zero_iff (x : Example) (ev : Option Evaluation) :
    x.deduction ev = 0 ↔ ((usual examples limit).scoreOf x ev).correct = true := by
  rw [← ((deducts_usual examples limit).scoreOf x ev).2, score_usual, Binary64.position_minus]

/-- One more is deducted for an evaluation without an end than for one that emits nothing. -/
theorem deduction_none {x : Example} {e : Evaluation} (h : e.outputs = []) :
    x.deduction none = x.deduction (some e) + 1 := by
  have hmissing : ListSet.diff x.outputs [] = x.outputs :=
    List.filter_eq_self.2 fun _ _ => rfl
  have hsurplus : ListSet.diff [] x.outputs = [] := rfl
  rw [Example.deduction, Example.deduction, h, hmissing, hsurplus, List.length_nil, Nat.zero_add]

/-- The usual card of a diagram: each example is scored whether or not its evaluation comes to an
end. -/
def usualCard (d : Diagram) (examples : List Example) (limit : RoundLimit) : ScoreCard :=
  ⟨examples.map fun x => (usual examples limit).scoreOf x (d.evaluate x.inputs limit).toOption⟩

/-- **Every well-formed diagram has the usual card.** -/
theorem card_usual (hd : d.validate registry = .ok d) (examples : List Example)
    (limit : RoundLimit) :
    (usual examples limit).card d = .ok (usualCard d examples limit) := by
  have hwell : d.WellFormed :=
    Diagram.wellFormed_of_fault?_eq_none (Diagram.validate_eq_ok_iff.1 hd).1
  have hentry (x : Example) : (usual examples limit).entry d x =
      .ok ((usual examples limit).scoreOf x (d.evaluate x.inputs limit).toOption) := by
    have hlimit : (usual examples limit).limit = limit := rfl
    unfold entry
    rw [hlimit]
    -- Nothing but its limit ends the evaluation of a well-formed diagram.
    obtain ⟨e, he⟩ | he := (hwell.unhindered x.inputs).evaluate_eq_ok_or_limitReached limit
    · rw [he]
      rfl
    · rw [he]
      rfl
  rw [card_eq_ok_iff, usualCard, List.forall₂_map_right_iff]
  exact List.forall₂_same.2 fun x _ => hentry x

theorem scores_usualCard (d : Diagram) (examples : List Example) (limit : RoundLimit) :
    (usualCard d examples limit).scores = (d.deductions examples limit).map .minus := by
  rw [ScoreCard.scores, usualCard, Diagram.deductions, List.map_map, List.map_map]
  exact List.map_congr_left fun x _ => score_usual x _

/-- Nothing is deducted exactly from perfect diagrams. -/
theorem sum_deductions_eq_zero_iff : (d.deductions examples limit).sum = 0 ↔
    (usualCard d examples limit).perfect = true := by
  rw [List.sum_eq_zero_iff, Diagram.deductions, List.forall_mem_map, ScoreCard.perfect,
    List.all_eq_true, usualCard, List.forall_mem_map]
  exact forall₂_congr fun x _ => deduction_eq_zero_iff x _

/-- **The usual fitness of a well-formed diagram** is not positive, and zero exactly if the diagram
is perfect: each evaluation ends, with the facts that are desired. Each score is minus a natural
number, and the fitness is minus their sum, which is rounded only if it is very large. An evaluation
without an end scores one less than one that emits nothing. -/
theorem usual_exact (hd : d.validate registry = .ok d) (examples : List Example)
    (limit : RoundLimit) : ∃ card, (usual examples limit).card d = .ok card ∧
      card.fitness.atMost .zero = true ∧
      (card.fitness.whole? = some 0 ↔ card.perfect = true) ∧
      (card.perfect = true ↔ ∀ x ∈ examples, ∃ e, d.evaluate x.inputs limit = .ok e ∧
        ListSet.equal e.outputs x.outputs = true) ∧
      card.scores = (d.deductions examples limit).map .minus ∧
      ((d.deductions examples limit).sum = 0 ↔ card.perfect = true) ∧
      ((d.deductions examples limit).sum ≤ wholeBound →
        card.fitness.whole? = some (-((d.deductions examples limit).sum : ℤ))) ∧
      ∀ x ∈ examples, ∀ e : Evaluation, e.outputs = [] → ∃ n : ℕ,
        ((usual examples limit).scoreOf x (some e)).score = .minus n ∧
        ((usual examples limit).scoreOf x none).score = .minus (n + 1) := by
  have hcard := card_usual hd examples limit
  obtain ⟨hnonpositive, hzero⟩ := (deducts_usual examples limit).fitness hcard
  refine ⟨usualCard d examples limit, hcard, hnonpositive.atMost_zero, ?_,
    perfect_iff_of_card hcard, scores_usualCard d examples limit, sum_deductions_eq_zero_iff, ?_,
    ?_⟩
  · rw [Binary64.whole?_eq_zero_iff, hzero]
  · intro hbound
    rw [ScoreCard.fitness, scores_usualCard]
    exact Binary64.whole?_sum_minus hbound
  · intro x _ e he
    exact ⟨x.deduction (some e), score_usual x _, by rw [score_usual, deduction_none he]⟩

end Scoring

namespace CopyRule

/-- A diagram that always emits zero gets the first of two examples right, and is charged for one
fact that the other does not desire and for one that it does. -/
theorem fitness_always : (always 0).validate none = .ok (always 0) ∧
    ∃ card, (Scoring.usual [exampleOf 0, exampleOf 1] .standard).card (always 0) = .ok card ∧
      card.fitness.whole? = some (-3) ∧ card.perfect = false := by
  have hvalid : (always 0).validate none = .ok (always 0) := rfl
  have hsum : ((always 0).deductions [exampleOf 0, exampleOf 1] .standard).sum = 3 := by
    decide +kernel
  obtain ⟨card, hcard, -, -, -, -, hperfect, hwhole, -⟩ :=
    Scoring.usual_exact hvalid [exampleOf 0, exampleOf 1] .standard
  rw [hsum] at hperfect hwhole
  refine ⟨hvalid, card, hcard, hwhole (by decide +kernel), ?_⟩
  rw [Bool.eq_false_iff, ne_eq, ← hperfect]
  decide

end CopyRule

end RuleDiagram
