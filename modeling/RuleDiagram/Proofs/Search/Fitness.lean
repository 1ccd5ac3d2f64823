import RuleDiagram.Proofs.Number.Sum
import RuleDiagram.Proofs.Outcome
import RuleDiagram.Search.Score

/-!
# Fitness that can be compared

The fitness of a diagram is a sum of scores. It can be compared where no such sum is without a
value, which is so for all scorers whose scores are finite. A scoring whose scores are zero exactly
for examples that are reproduced, and negative for others, tells perfect diagrams from others: the
fitness of the perfect ones is zero, and that of the others is negative. The usual scorer, with the
usual penalty, is of this kind.

## Main definitions

* `Scoring.Definite`: no fitness is without a value
* `Scoring.Separates`: perfect diagrams are fitter than others
* `Scoring.Deducts`: scores are zero for what is reproduced, and negative for all else

## Main results

* `Scoring.definite_of_isFinite`: finite scores give a fitness with a value
* `Scoring.Deducts.definite`, `Scoring.Deducts.separates`
* `Scoring.deducts_agreement`: the usual scoring
-/

namespace RuleDiagram

namespace ListSet

variable {α : Type} [Canonical α] [DecidableEq α] {xs ys : List α}

theorem length_diff_eq_zero_iff : (diff xs ys).length = 0 ↔ subset xs ys = true := by
  rw [List.length_eq_zero_iff, diff, List.filter_eq_nil_iff, subset, List.all_eq_true]
  simp

end ListSet

namespace Scoring

variable {s : Scoring} {d : Diagram} {card : ScoreCard} {entry : ExampleScore}

/-- **No fitness is without a value.** -/
def Definite (s : Scoring) : Prop :=
  ∀ d card, s.card d = .ok card → card.fitness.isUndefined = false

/-- Scores are zero for examples that are reproduced, and negative for others. -/
structure Deducts (s : Scoring) : Prop where
  score : ∀ emitted desired, (s.scorer emitted desired).Nonpositive ∧
    ((s.scorer emitted desired).position = 0 ↔ ListSet.equal emitted desired = true)
  penalty : ∀ desired, (s.penalty desired).Nonpositive ∧ (s.penalty desired).position ≠ 0

/-- The entries of a card are those of the examples in turn. -/
theorem card_eq_ok_iff : s.card d = .ok card ↔
    List.Forall₂ (fun given entry => s.entry d given = .ok entry) s.examples card.entries := by
  rw [← List.mapM_eq_ok_iff, Scoring.card, Except.bind_eq_ok_iff]
  simp only [Except.pure_eq_ok_iff]
  constructor
  · rintro ⟨entries, hentries, rfl⟩
    exact hentries
  · intro h
    exact ⟨card.entries, h, rfl⟩

/-- An entry of a card is the score of an example, whose evaluation ends or not. -/
theorem exists_of_mem_entries (h : s.card d = .ok card) (hentry : entry ∈ card.entries) :
    ∃ x ∈ s.examples, ∃ ev, entry = s.scoreOf x ev := by
  obtain ⟨x, hx, hok⟩ := List.exists_left_of_forall₂ (card_eq_ok_iff.1 h) hentry
  refine ⟨x, hx, ?_⟩
  unfold Scoring.entry at hok
  split at hok
  · next ev _ => exact ⟨some ev, (Except.ok.inj hok).symm⟩
  · exact ⟨none, (Except.ok.inj hok).symm⟩
  · cases hok

/-- **Finite scores give a fitness with a value.** -/
theorem definite_of_isFinite (hscorer : ∀ emitted desired, (s.scorer emitted desired).isFinite)
    (hpenalty : ∀ x ∈ s.examples, (s.penalty x.outputs).isFinite) : s.Definite := by
  intro d card hcard
  apply Binary64.isUndefined_sum_of_isFinite
  intro score hscore
  obtain ⟨entry, hentry, rfl⟩ := List.mem_map.1 hscore
  obtain ⟨x, hx, ev, rfl⟩ := exists_of_mem_entries hcard hentry
  cases ev with
  | none => exact hpenalty x hx
  | some ev => exact hscorer ev.outputs x.outputs

namespace Deducts

theorem scoreOf (h : s.Deducts) (x : Example) (ev : Option Evaluation) :
    (s.scoreOf x ev).score.Nonpositive ∧
      ((s.scoreOf x ev).score.position = 0 ↔ (s.scoreOf x ev).correct = true) := by
  cases ev with
  | none =>
    obtain ⟨hnonpositive, hne⟩ := h.penalty x.outputs
    refine ⟨hnonpositive, ?_⟩
    simp [Scoring.scoreOf, hne]
  | some ev => exact h.score ev.outputs x.outputs

/-- **The fitness is not positive, and zero exactly for perfect diagrams.** -/
theorem fitness (h : s.Deducts) (hcard : s.card d = .ok card) :
    card.fitness.Nonpositive ∧ (card.fitness.position = 0 ↔ card.perfect = true) := by
  have hentry : ∀ entry ∈ card.entries, entry.score.Nonpositive ∧
      (entry.score.position = 0 ↔ entry.correct = true) := by
    intro entry hmem
    obtain ⟨x, -, ev, rfl⟩ := exists_of_mem_entries hcard hmem
    exact h.scoreOf x ev
  have hscores : ∀ score ∈ card.scores, score.Nonpositive := by
    intro score hscore
    obtain ⟨entry, hmem, rfl⟩ := List.mem_map.1 hscore
    exact (hentry entry hmem).1
  obtain ⟨hnonpositive, hzero⟩ := Binary64.nonpositive_sum hscores
  refine ⟨hnonpositive, ?_⟩
  rw [ScoreCard.fitness, hzero, ScoreCard.perfect, List.all_eq_true, ScoreCard.scores,
    List.forall_mem_map]
  constructor
  · intro hall entry hmem
    exact (hentry entry hmem).2.1 (hall entry hmem)
  · intro hall entry hmem
    exact (hentry entry hmem).2.2 (hall entry hmem)

theorem definite (h : s.Deducts) : s.Definite :=
  fun _ _ hcard => (h.fitness hcard).1.defined

end Deducts

/-! ## The usual scoring -/

/-- Minus a natural number: not positive, and zero only if the number is. -/
theorem nonpositive_neg_ofInt (n : ℕ) : (Binary64.ofInt n).neg.Nonpositive ∧
    ((Binary64.ofInt n).neg.position = 0 ↔ n = 0) := by
  have hpos : 0 < infinityCode := by decide +kernel
  have hunits : 0 < unitsPerOne := by decide +kernel
  have hnonneg : decide ((n : ℤ) < 0) = false := by simp
  have hcode : Binary64.codeOfUnits (n * unitsPerOne) 1 = 0 ↔ n = 0 := by
    constructor
    · intro h
      by_contra hne
      have := Binary64.codeOfUnits_pos (Nat.mul_pos (Nat.pos_of_ne_zero hne) hunits)
      omega
    · rintro rfl
      rw [Nat.zero_mul]
      decide +kernel
  rw [Binary64.ofInt, hnonneg, Int.natAbs_natCast, Binary64.ofUnits]
  refine ⟨⟨?_, ?_⟩, ?_⟩
  · exact Binary64.isUndefined_ofCode false _
  · simp [Binary64.neg, Binary64.position, Binary64.ofCode]
  · simp only [Binary64.neg, Binary64.position, Binary64.ofCode, Bool.not_false, if_true]
    omega

/-- **The usual scoring deducts from zero for all that is not reproduced.** -/
theorem deducts_agreement (examples : List Example) (limit : RoundLimit) :
    (⟨examples, .agreement, .standard, limit⟩ : Scoring).Deducts where
  score emitted desired := by
    obtain ⟨hnonpositive, hzero⟩ := nonpositive_neg_ofInt
      ((ListSet.diff emitted desired).length + 2 * (ListSet.diff desired emitted).length)
    push_cast at hnonpositive hzero
    refine ⟨hnonpositive, ?_⟩
    show (Binary64.ofInt _).neg.position = 0 ↔ _
    rw [hzero, ListSet.equal, Bool.and_eq_true, ← ListSet.length_diff_eq_zero_iff,
      ← ListSet.length_diff_eq_zero_iff]
    omega
  penalty desired := by
    obtain ⟨hnonpositive, hzero⟩ := nonpositive_neg_ofInt (2 * desired.length + 1)
    push_cast at hnonpositive hzero
    refine ⟨hnonpositive, ?_⟩
    show (Binary64.ofInt _).neg.position ≠ 0
    simp [hzero]

end Scoring

end RuleDiagram
