import Mathlib.Data.List.Basic

/-!
# Lookups in lists of pairs

Snapshots, tables of sets and tables of registers are lists of pairs, read by the first components.
Where no first component comes twice, a pair is found exactly when it is in the list.

## Main results

* `List.lookup_map_snd`: a lookup after a change of the second components
* `List.lookup_eq_some_iff_mem`: what is found is what is there
-/

namespace List

variable {κ α β : Type} [DecidableEq κ] {l : List (κ × α)} {k : κ} {a : α}

theorem lookup_cons_ite (p : κ × α) (l : List (κ × α)) (k : κ) :
    (p :: l).lookup k = if k = p.1 then some p.2 else l.lookup k := by
  rw [lookup_cons]
  split
  · next h => rw [if_pos (eq_of_beq h)]
  · next h => rw [if_neg (ne_of_beq_false h)]

theorem lookup_map_snd (f : κ → α → β) (l : List (κ × α)) (k : κ) :
    (l.map fun p => (p.1, f p.1 p.2)).lookup k = (l.lookup k).map (f k) := by
  induction l with
  | nil => rfl
  | cons p l ih =>
    rw [map_cons, lookup_cons_ite, lookup_cons_ite, ih]
    split
    · next h => rw [h, Option.map_some]
    · rfl

theorem lookup_eq_none_iff_notMem : l.lookup k = none ↔ k ∉ l.map Prod.fst := by
  rw [lookup_eq_none_iff]
  simp only [bne_iff_ne, mem_map, not_exists, not_and]
  exact ⟨fun h p hp hk => h p hp hk.symm, fun h p hp hk => h p hp hk.symm⟩

theorem isSome_lookup_iff_mem : (l.lookup k).isSome ↔ k ∈ l.map Prod.fst := by
  rw [← Option.ne_none_iff_isSome, Ne, lookup_eq_none_iff_notMem, not_not]

theorem mem_of_lookup_eq_some (h : l.lookup k = some a) : (k, a) ∈ l := by
  obtain ⟨xs, ys, rfl, -⟩ := lookup_eq_some_iff.1 h
  simp

theorem lookup_eq_some_iff_mem (hl : (l.map Prod.fst).Nodup) :
    l.lookup k = some a ↔ (k, a) ∈ l := by
  refine ⟨mem_of_lookup_eq_some, fun h => ?_⟩
  induction l with
  | nil => cases h
  | cons p l ih =>
    rw [map_cons, nodup_cons] at hl
    rw [lookup_cons_ite]
    rcases mem_cons.1 h with rfl | h
    · rw [if_pos rfl]
    · have hne : k ≠ p.1 := fun hk => hl.1 (hk ▸ mem_map_of_mem (f := Prod.fst) h)
      rw [if_neg hne, ih hl.2 h]

end List
