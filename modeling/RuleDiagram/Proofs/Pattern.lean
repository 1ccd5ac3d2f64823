import RuleDiagram.Pattern

/-!
# The registers of patterns

The lists of registers that a pattern reads, writes or mentions are ascending and hold what its
terms name.

## Main results

* `mem_ascending`, `ascending_pairwise`: an ascending list has the given members, each once
* `Pattern.mem_reads`, `Pattern.mem_writes`, `Pattern.mem_registers`: the registers of a pattern
-/

namespace RuleDiagram

variable {n m : Int} {ns : List Int}

@[simp] theorem mem_insertAscending : m ∈ insertAscending n ns ↔ m = n ∨ m ∈ ns := by
  induction ns with
  | nil => simp [insertAscending]
  | cons k rest ih =>
    unfold insertAscending
    split
    · simp
    · split
      · next heq => simp [heq]
      · rw [List.mem_cons, ih, List.mem_cons, or_left_comm]

theorem insertAscending_pairwise (h : ns.Pairwise (· < ·)) :
    (insertAscending n ns).Pairwise (· < ·) := by
  induction ns with
  | nil => simp [insertAscending]
  | cons k rest ih =>
    obtain ⟨hk, hrest⟩ := List.pairwise_cons.1 h
    unfold insertAscending
    split
    · next hlt =>
      refine List.pairwise_cons.2 ⟨fun a ha => ?_, h⟩
      rcases List.mem_cons.1 ha with rfl | ha
      · exact hlt
      · exact Int.lt_trans hlt (hk a ha)
    · split
      · exact h
      · refine List.pairwise_cons.2 ⟨fun a ha => ?_, ih hrest⟩
        rcases mem_insertAscending.1 ha with rfl | ha
        · omega
        · exact hk a ha

theorem mem_foldl_insertAscending (sorted : List Int) :
    m ∈ ns.foldl (fun sorted n => insertAscending n sorted) sorted ↔ m ∈ sorted ∨ m ∈ ns := by
  induction ns generalizing sorted with
  | nil => simp
  | cons k rest ih =>
    rw [List.foldl_cons, ih, mem_insertAscending, List.mem_cons, or_assoc, or_left_comm]

@[simp] theorem mem_ascending : m ∈ ascending ns ↔ m ∈ ns := by
  rw [ascending, mem_foldl_insertAscending]
  simp

theorem ascending_pairwise (ns : List Int) : (ascending ns).Pairwise (· < ·) := by
  have key : ∀ sorted : List Int, sorted.Pairwise (· < ·) →
      (ns.foldl (fun sorted n => insertAscending n sorted) sorted).Pairwise (· < ·) := by
    induction ns with
    | nil => exact fun _ h => h
    | cons k rest ih => exact fun sorted h => ih _ (insertAscending_pairwise h)
  exact key [] List.Pairwise.nil

theorem nodup_ascending (ns : List Int) : (ascending ns).Nodup :=
  (ascending_pairwise ns).imp fun h => Int.ne_of_lt h

namespace Pattern

variable {p : Pattern} {r : Int}

theorem mem_reads : r ∈ p.reads ↔ .reference r ∈ p.terms := by
  rw [reads, mem_ascending, List.mem_filterMap]
  constructor
  · rintro ⟨t, ht, hr⟩
    cases t <;> cases hr
    exact ht
  · exact fun h => ⟨_, h, rfl⟩

theorem mem_writes : r ∈ p.writes ↔ .free r ∈ p.terms := by
  rw [writes, mem_ascending, List.mem_filterMap]
  constructor
  · rintro ⟨t, ht, hr⟩
    cases t <;> cases hr
    exact ht
  · exact fun h => ⟨_, h, rfl⟩

theorem mem_registers : r ∈ p.registers ↔ .reference r ∈ p.terms ∨ .free r ∈ p.terms := by
  rw [registers, mem_ascending, List.mem_append, mem_reads, mem_writes]

theorem writtenBefore_eq_false_iff {place : Nat} : p.writtenBefore place r = false ↔
    ∀ t ∈ p.terms.take place, t.written? ≠ some r := by
  have hbefore : before p.terms place = p.terms.take place := by
    rw [before, if_neg (Int.not_lt.2 (Int.natCast_nonneg place)), Int.toNat_natCast]
  simp only [writtenBefore, hbefore, List.any_eq_false, decide_eq_true_eq, Ne]

end Pattern

end RuleDiagram
