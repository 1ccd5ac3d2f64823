import RuleDiagram.Proofs.Number.Sign
import RuleDiagram.Search.Sampling

/-!
# Shares of weights

The weights of the mutations on offer are added up in strands and by halves. Whatever the grouping,
each weight goes into the total once, so weights that are not below zero have a total that is not,
and one that is zero only if they all are. Their shares are not below zero then.

## Main results

* `composed_strandTotal`, `composed_halvedTotal`: totals are sums of all the weights
* `less_zero_of_mem_shares`: shares of weights that are not below zero
-/

namespace RuleDiagram

open Binary64

variable {weights : List Binary64} {p x : Binary64}

/-- The numbers that go to a strand. -/
def strandOf (xs : List Binary64) (k : ℕ) : List Binary64 :=
  (xs.zipIdx.filter fun (_, i) => decide (i % 8 = k)).map Prod.fst

theorem mem_strandOf {xs : List Binary64} {k : ℕ} :
    x ∈ strandOf xs k ↔ ∃ i, xs[i]? = some x ∧ i % 8 = k := by
  simp [strandOf, List.mem_zipIdx_iff_getElem?]

/-- Every number goes to one of the eight strands. -/
theorem exists_mem_strandOf (xs : List Binary64) : (∃ k < 8, x ∈ strandOf xs k) ↔ x ∈ xs := by
  simp only [mem_strandOf]
  constructor
  · rintro ⟨k, -, i, hi, -⟩
    exact List.mem_of_getElem? hi
  · intro hx
    obtain ⟨i, hi⟩ := List.mem_iff_getElem?.1 hx
    exact ⟨i % 8, Nat.mod_lt i (by omega), i, hi, rfl⟩

/-- The sum of a strand, from its first number on. -/
theorem composed_strand (xs : List Binary64) :
    Composed {x | x ∈ xs} ((xs.drop 1).foldl Binary64.add (xs.headD .zero)) := by
  cases xs with
  | nil => exact Composed.zero.congr (by simp)
  | cons x rest =>
    refine ((Composed.single x).foldl rest).congr ?_
    ext y
    simp

/-- **The total in strands is a sum of all the numbers.** -/
theorem composed_strandTotal (xs : List Binary64) : Composed {x | x ∈ xs} (strandTotal xs) := by
  unfold strandTotal
  extract_lets whole strand pair strands
  -- Each strand is the sum of every eighth number of the first part.
  have hstrand (k : ℕ) : Composed {x | x ∈ strandOf (xs.take whole) k} (strand k) :=
    composed_strand _
  have hpair (k : ℕ) : Composed ({x | x ∈ strandOf (xs.take whole) k} ∪
      {x | x ∈ strandOf (xs.take whole) (k + 1)}) (pair k) := (hstrand k).add (hstrand (k + 1))
  have hstrands : Composed {x | x ∈ xs.take whole} strands := by
    refine (((hpair 0).add (hpair 2)).add ((hpair 4).add (hpair 6))).congr ?_
    ext x
    simp only [Set.mem_union, Set.mem_ofPred_eq]
    rw [← exists_mem_strandOf (xs.take whole)]
    constructor
    · rintro (((h | h) | (h | h)) | ((h | h) | (h | h))) <;> exact ⟨_, by omega, h⟩
    · rintro ⟨k, hk, h⟩
      obtain rfl | rfl | rfl | rfl | rfl | rfl | rfl | rfl : k = 0 ∨ k = 1 ∨ k = 2 ∨ k = 3 ∨ k = 4 ∨
          k = 5 ∨ k = 6 ∨ k = 7 := by omega
      all_goals simp only [h, true_or, or_true]
  split
  · exact .sum xs
  · -- The numbers left over are added to the strands one by one.
    refine (hstrands.foldl _).congr ?_
    ext x
    simp only [Set.mem_union, Set.mem_ofPred_eq]
    rw [← List.mem_append, List.take_append_drop]

/-- **The total by halves is a sum of all the numbers.** -/
theorem composed_halvedTotal (depth : ℕ) (xs : List Binary64) :
    Composed {x | x ∈ xs} (halvedTotal depth xs) := by
  induction depth generalizing xs with
  | zero => exact .sum xs
  | succ depth ih =>
    unfold halvedTotal
    split
    · exact composed_strandTotal xs
    · -- The two halves are the whole list, wherever it is cut.
      refine ((ih _).add (ih _)).congr ?_
      ext x
      simp only [Set.mem_union, Set.mem_ofPred_eq]
      rw [← List.mem_append, List.take_append_drop]

/-- **Shares of weights that are not below zero** are not below zero. -/
theorem less_zero_of_mem_shares (h : ∀ x ∈ weights, x.less .zero = false)
    (hp : p ∈ shares weights) : p.less .zero = false := by
  obtain ⟨x, hx, rfl⟩ := List.mem_map.1 hp
  obtain ⟨htotal, -⟩ := (composed_halvedTotal weights.length weights).nonnegative h
  generalize halvedTotal weights.length weights = total at htotal ⊢
  by_cases hundefined : (x.isUndefined || total.isUndefined) = true
  · -- A share of a number without a value, or of such a total, has none.
    rw [div, if_pos hundefined]
    simp [less, isUndefined, undefined, undefinedCode]
  · rw [Bool.not_eq_true, Bool.or_eq_false_iff] at hundefined
    obtain ⟨hnonnegative, hzero⟩ := htotal hundefined.2
    exact (less_zero_eq_false_iff.1 (h x hx) hundefined.1).less_div_zero hnonnegative
      fun hposition => hzero hposition x hx

end RuleDiagram
