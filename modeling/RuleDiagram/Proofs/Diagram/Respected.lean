import Mathlib.Data.Set.Basic
import RuleDiagram.Proofs.Diagram.BoundTable

/-!
# The table of bound registers is a greatest one

Sets of registers that the edges of a diagram respect, from nothing at the root on, stay within the
entries of the analysis while it runs: what it takes away from an entry did not arrive by some edge.
So the table it ends with is as great as any such sets, wherever it has an entry.

## Main definitions

* `Diagram.Respects`: the edges respect sets of registers
* `BoundState.Above`: a state of the analysis whose entries hold such sets

## Main results

* `BoundState.Above.visit`: a visit keeps the entries above
* `Diagram.Respects.mem_of_bound`: the entries of the final table are above
-/

namespace RuleDiagram

variable {d : Diagram} {B : Int → Set Int} {s : BoundState} {i t r : Int} {rs entry : List Int}
  {T : BoundTable}

/-- **The edges of a diagram respect sets of registers**: nothing is required at the root, and what
a target requires is required at the source, or written on the match edge. -/
structure Diagram.Respects (d : Diagram) (B : Int → Set Int) : Prop where
  root : B d.root = ∅
  onMatch : ∀ i p t f, d.node? i = some (.branch p (some t) f) →
    ∀ r ∈ B t, r ∈ B i ∨ r ∈ p.writes
  onRefute : ∀ i p m t, d.node? i = some (.branch p m (some t)) → B t ⊆ B i

namespace BoundState

/-- All entries of a state hold given sets of registers, and the pending indices have entries. -/
structure Above (B : Int → Set Int) (s : BoundState) : Prop where
  entries : ∀ i entry, (i, entry) ∈ s.table → ∀ r ∈ B i, r ∈ entry
  pending : ∀ i ∈ s.pending, i ∈ s.table.map Prod.fst

theorem Above.push (h : s.Above B) (ht : t ∈ s.table.map Prod.fst) : (s.push t).Above B where
  entries i entry hi := h.entries i entry (table_push s t ▸ hi)
  pending i hi := by
    rw [table_push]
    rcases mem_pending_push.1 hi with rfl | hi
    · exact ht
    · exact h.pending i hi

theorem map_fst_map_entry (T : BoundTable) (t : Int) (entry : List Int) :
    (T.map fun (i, rs) => if i = t then (i, entry) else (i, rs)).map Prod.fst =
      T.map Prod.fst := by
  rw [List.map_map]
  refine List.map_congr_left fun x _ => ?_
  dsimp only [Function.comp]
  split <;> rfl

/-- An arrival with at least what the target requires keeps the entries above. -/
theorem Above.arrive (h : s.Above B) {target : Option Int}
    (hrs : ∀ t, target = some t → ∀ r ∈ B t, r ∈ rs) : (s.arrive target rs).Above B := by
  cases target with
  | none => exact h
  | some t =>
    cases hprev : s.table.lookup t with
    | none =>
      -- The first arrival: the entry is what arrives.
      rw [arrive_of_lookup_eq_none hprev]
      refine Above.push ⟨fun i entry hi r hr => ?_, fun i hi => ?_⟩ (by simp)
      · rcases List.mem_append.1 hi with hi | hi
        · exact h.entries i entry hi r hr
        · obtain ⟨rfl, rfl⟩ := Prod.mk.inj (List.mem_singleton.1 hi)
          exact hrs i rfl r hr
      · rw [List.map_append]
        exact List.mem_append_left _ (h.pending i hi)
    | some previous =>
      rw [arrive_of_lookup_eq_some hprev]
      split
      · exact h
      · -- The registers that stay were there before and arrive as well.
        have hkeys := map_fst_map_entry s.table t (previous.filter (· ∈ rs))
        have ht : t ∈ s.table.map Prod.fst := List.isSome_lookup_iff_mem.1 (hprev ▸ rfl)
        refine Above.push ⟨fun i entry hi r hr => ?_, fun i hi => hkeys ▸ h.pending i hi⟩
          (hkeys.symm ▸ ht)
        obtain ⟨⟨j, old⟩, hj, heq⟩ := List.mem_map.1 hi
        dsimp only at heq
        by_cases hjt : j = t
        · rw [if_pos hjt] at heq
          obtain ⟨rfl, rfl⟩ := Prod.mk.inj heq
          subst hjt
          have hold := h.entries j previous (List.mem_of_lookup_eq_some hprev) r hr
          exact List.mem_filter.2 ⟨hold, decide_eq_true (hrs j rfl r hr)⟩
        · rw [if_neg hjt] at heq
          obtain ⟨rfl, rfl⟩ := Prod.mk.inj heq
          exact h.entries j old hj r hr

/-- **A visit keeps the entries above** the sets that the edges respect. -/
theorem Above.visit {n : Node} (h : s.Above B) (hB : d.Respects B) (hn : d.node? i = some n)
    (hi : i ∈ s.table.map Prod.fst) : (s.visit i n).Above B := by
  cases n with
  | leaf p => exact h
  | branch p m f =>
    obtain ⟨entry, hentry⟩ := Option.isSome_iff_exists.1 (List.isSome_lookup_iff_mem.2 hi)
    have hold := h.entries i entry (List.mem_of_lookup_eq_some hentry)
    simp only [BoundState.visit, hentry, Option.getD_some]
    refine (h.arrive ?_).arrive ?_
    · rintro t rfl r hr
      rw [mem_ascending, List.mem_append]
      exact (hB.onMatch i p t f hn r hr).imp_left (hold r)
    · rintro t rfl r hr
      exact hold r (hB.onRefute i p m t hn hr)

end BoundState

namespace Diagram

theorem Respects.above_of_boundFrom {steps : ℕ} (hB : d.Respects B) (hs : s.Above B)
    (h : d.boundFrom steps s = .ok T) : ∀ i entry, (i, entry) ∈ T → ∀ r ∈ B i, r ∈ entry := by
  -- Induction on the steps.
  induction steps generalizing s with
  | zero =>
    obtain rfl := Except.ok.inj h
    exact hs.entries
  | succ steps ih =>
    unfold boundFrom at h
    cases hpending : s.pending with
    | nil =>
      rw [hpending] at h
      obtain rfl := Except.ok.inj h
      exact hs.entries
    | cons i pending =>
      simp only [hpending] at h
      cases hn : d.node? i with
      | none =>
        rw [hn] at h
        cases h
      | some n =>
        rw [hn] at h
        have hpopped : { s with pending := pending }.Above B :=
          ⟨hs.entries, fun j hj => hs.pending j (hpending ▸ List.mem_cons_of_mem i hj)⟩
        exact ih (hpopped.visit hB hn (hs.pending i (hpending ▸ List.mem_cons_self))) h

/-- **The entries of the table hold all sets that the edges respect.** -/
theorem Respects.mem_of_bound (hB : d.Respects B) (h : d.bound = .ok T) (hi : (i, entry) ∈ T)
    (hr : r ∈ B i) : r ∈ entry := by
  refine hB.above_of_boundFrom ⟨fun j e hj r hr => ?_, fun j hj => ?_⟩ h i entry hi r hr
  · obtain ⟨rfl, rfl⟩ := Prod.mk.inj (List.mem_singleton.1 hj)
    rw [hB.root] at hr
    exact hr.elim
  · rw [List.mem_singleton.1 hj]
    exact List.mem_cons_self

end Diagram

end RuleDiagram
