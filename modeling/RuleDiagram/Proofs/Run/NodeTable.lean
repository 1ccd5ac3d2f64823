import RuleDiagram.Run.Evaluation
import RuleDiagram.Proofs.Lookup
import RuleDiagram.Proofs.Sameness

/-!
# Tables as families of sets

A table keeps a set for each of its nodes; all other nodes have the empty set. The operations of
tables are the operations of these families of sets, node by node.

## Main definitions

* `NodeTable.sets`: the sets that a table keeps

## Main results

* `NodeTable.sets_add`, `NodeTable.sets_addAll`, `NodeTable.sets_send`, `NodeTable.sets_diff`: the
  operations of tables, node by node
* `NodeTable.mem_union`: the union of all sets
-/

namespace RuleDiagram

namespace NodeTable

open ListSet

variable {α : Type} {t u : NodeTable α} {i j : Int} {xs : List α} {x : α}

theorem mem_indices : i ∈ t.indices ↔ ∃ xs, (i, xs) ∈ t.entries := by
  simp [indices]

/-- The set of a node is the one that the table has an entry for. -/
theorem get_eq_of_mem (h : (i, xs) ∈ t.entries) : t.get i = xs := by
  rw [get, (List.lookup_eq_some_iff_mem t.nodup).2 h, Option.getD_some]

theorem get_eq_nil_of_notMem (h : i ∉ t.indices) : t.get i = [] := by
  rw [get, List.lookup_eq_none_iff_notMem.2 h, Option.getD_none]

theorem mem_entries_get (h : i ∈ t.indices) : (i, t.get i) ∈ t.entries := by
  obtain ⟨xs, hxs⟩ := mem_indices.1 h
  rwa [get_eq_of_mem hxs]

@[simp] theorem mem_indices_single : j ∈ (single i xs).indices ↔ j = i := by
  simp [indices, single]

variable [Canonical α] [DecidableEq α]

/-- The sets that a table keeps, one for each node. -/
def sets (t : NodeTable α) (i : Int) : Set α := toSet (t.get i)

theorem mem_sets : x ∈ t.sets i ↔ ∃ xs, (i, xs) ∈ t.entries ∧ x ∈ toSet xs := by
  unfold sets
  constructor
  · intro h
    by_cases hi : i ∈ t.indices
    · exact ⟨t.get i, mem_entries_get hi, h⟩
    · rw [get_eq_nil_of_notMem hi, toSet_nil] at h
      exact h.elim
  · rintro ⟨xs, hxs, hx⟩
    rwa [get_eq_of_mem hxs]

theorem mem_indices_of_mem_sets (h : x ∈ t.sets i) : i ∈ t.indices := by
  obtain ⟨xs, hxs, -⟩ := mem_sets.1 h
  exact mem_indices.2 ⟨xs, hxs⟩

@[simp] theorem sets_empty : (empty : NodeTable α).sets i = ∅ := toSet_nil

@[simp] theorem sets_single : (single i xs).sets j = {x | j = i ∧ x ∈ toSet xs} := by
  ext x
  rw [mem_sets]
  simp [single]

theorem mem_sets_single : x ∈ (single i xs).sets j ↔ j = i ∧ x ∈ toSet xs := by
  rw [sets_single, Set.mem_ofPred_eq]

/-! ## Adding elements -/

theorem entries_add_of_mem (h : i ∈ t.indices) :
    (t.add i xs).entries =
      t.entries.map fun (j, ys) => (j, if j = i then ListSet.union ys xs else ys) := by
  simp only [add, dif_pos h]

theorem entries_add_of_notMem (h : i ∉ t.indices) :
    (t.add i xs).entries = t.entries ++ [(i, ofList xs)] := by
  simp only [add, dif_neg h]

@[simp] theorem mem_indices_add : j ∈ (t.add i xs).indices ↔ j = i ∨ j ∈ t.indices := by
  by_cases h : i ∈ t.indices
  · have hmap : (t.add i xs).indices = t.indices := by
      simp [indices, entries_add_of_mem h, Function.comp_def]
    rw [hmap]
    exact ⟨.inr, fun hj => hj.elim (fun hji => hji ▸ h) id⟩
  · have happend : (t.add i xs).indices = t.indices ++ [i] := by
      simp [indices, entries_add_of_notMem h]
    rw [happend, List.mem_append, List.mem_singleton, or_comm]

@[simp] theorem sets_add : (t.add i xs).sets j = t.sets j ∪ {x | j = i ∧ x ∈ toSet xs} := by
  ext x
  simp only [Set.mem_union, Set.mem_ofPred_eq, mem_sets]
  -- A node that is in the table keeps its entry and a new one gets its own, at the end.
  by_cases h : i ∈ t.indices
  · simp only [entries_add_of_mem h, List.mem_map, Prod.mk.injEq]
    constructor
    · rintro ⟨_, ⟨⟨j', ys⟩, hys, rfl, rfl⟩, hx⟩
      split at hx
      · next hji =>
        rw [toSet_union] at hx
        exact hx.imp (fun hx => ⟨ys, hys, hx⟩) fun hx => ⟨hji, hx⟩
      · exact .inl ⟨ys, hys, hx⟩
    · rintro (⟨ys, hys, hx⟩ | ⟨rfl, hx⟩)
      · refine ⟨_, ⟨(j, ys), hys, rfl, rfl⟩, ?_⟩
        split
        · exact toSet_union ys xs ▸ .inl hx
        · exact hx
      · obtain ⟨ys, hys⟩ := mem_indices.1 h
        refine ⟨_, ⟨(j, ys), hys, rfl, rfl⟩, ?_⟩
        rw [if_pos rfl, toSet_union]
        exact .inr hx
  · simp only [entries_add_of_notMem h, List.mem_append, List.mem_singleton, Prod.mk.injEq]
    constructor
    · rintro ⟨ys, hys | ⟨rfl, rfl⟩, hx⟩
      · exact .inl ⟨ys, hys, hx⟩
      · exact .inr ⟨rfl, toSet_ofList xs ▸ hx⟩
    · rintro (⟨ys, hys, hx⟩ | ⟨rfl, hx⟩)
      · exact ⟨ys, .inl hys, hx⟩
      · exact ⟨ofList xs, .inr ⟨rfl, rfl⟩, (toSet_ofList xs).symm ▸ hx⟩

/-- What adding several entries adds to a node. -/
theorem mem_sets_foldl_add (es : List (Int × List α)) :
    x ∈ (es.foldl (fun t (i, xs) => t.add i xs) t).sets j ↔
      x ∈ t.sets j ∨ ∃ xs, (j, xs) ∈ es ∧ x ∈ toSet xs := by
  induction es generalizing t with
  | nil => simp
  | cons e es ih =>
    obtain ⟨i, ys⟩ := e
    rw [List.foldl_cons, ih, sets_add]
    simp only [Set.mem_union, Set.mem_ofPred_eq, List.mem_cons, Prod.mk.injEq, or_assoc]
    constructor
    · rintro (hx | ⟨rfl, hx⟩ | ⟨xs, hxs, hx⟩)
      · exact .inl hx
      · exact .inr ⟨ys, .inl ⟨rfl, rfl⟩, hx⟩
      · exact .inr ⟨xs, .inr hxs, hx⟩
    · rintro (hx | ⟨xs, ⟨rfl, rfl⟩ | hxs, hx⟩)
      · exact .inl hx
      · exact .inr (.inl ⟨rfl, hx⟩)
      · exact .inr (.inr ⟨xs, hxs, hx⟩)

theorem mem_indices_foldl_add (es : List (Int × List α)) :
    j ∈ (es.foldl (fun t (i, xs) => t.add i xs) t).indices ↔
      j ∈ t.indices ∨ j ∈ es.map Prod.fst := by
  induction es generalizing t with
  | nil => simp
  | cons e es ih => rw [List.foldl_cons, ih, mem_indices_add, List.map_cons, List.mem_cons]; grind

@[simp] theorem sets_addAll : (t.addAll u).sets j = t.sets j ∪ u.sets j := by
  ext x
  rw [addAll, mem_sets_foldl_add, Set.mem_union, mem_sets (t := u)]

@[simp] theorem mem_indices_addAll : j ∈ (t.addAll u).indices ↔ j ∈ t.indices ∨ j ∈ u.indices :=
  mem_indices_foldl_add u.entries

/-! ## Differences and unions -/

theorem mem_entries_diff :
    (i, xs) ∈ (t.diff u).entries ↔
      ∃ ys, (i, ys) ∈ t.entries ∧ xs = ListSet.diff ys (u.get i) ∧ xs ≠ [] := by
  simp only [diff, List.mem_filter, List.mem_map, Prod.mk.injEq, decide_eq_true_eq]
  constructor
  · rintro ⟨⟨⟨j, ys⟩, hys, rfl, rfl⟩, hne⟩
    exact ⟨ys, hys, rfl, hne⟩
  · rintro ⟨ys, hys, rfl, hne⟩
    exact ⟨⟨(i, ys), hys, rfl, rfl⟩, hne⟩

@[simp] theorem sets_diff : (t.diff u).sets i = t.sets i \ u.sets i := by
  ext x
  rw [mem_sets, Set.mem_sdiff, mem_sets]
  simp only [mem_entries_diff]
  constructor
  · rintro ⟨_, ⟨ys, hys, rfl, -⟩, hx⟩
    rw [toSet_diff] at hx
    exact ⟨⟨ys, hys, hx.1⟩, hx.2⟩
  · rintro ⟨⟨ys, hys, hx⟩, hn⟩
    have hmem : x ∈ toSet (ListSet.diff ys (u.get i)) := toSet_diff ys _ ▸ ⟨hx, hn⟩
    exact ⟨_, ⟨ys, hys, rfl, toSet_nonempty.1 ⟨x, hmem⟩⟩, hmem⟩

/-- A difference keeps the nodes that have elements outside the other table. -/
theorem mem_indices_diff : i ∈ (t.diff u).indices ↔ ((t.diff u).sets i).Nonempty := by
  refine ⟨fun h => ?_, fun ⟨x, hx⟩ => mem_indices_of_mem_sets hx⟩
  obtain ⟨xs, hxs⟩ := mem_indices.1 h
  obtain ⟨-, -, -, hne⟩ := mem_entries_diff.1 hxs
  rw [sets, get_eq_of_mem hxs]
  exact toSet_nonempty.2 hne

theorem mem_union : x ∈ toSet t.union ↔ ∃ i, x ∈ t.sets i := by
  have key (es : List (Int × List α)) (ys : List α) :
      x ∈ toSet (es.foldl (fun xs (_, more) => ListSet.union xs more) ys) ↔
        x ∈ toSet ys ∨ ∃ i xs, (i, xs) ∈ es ∧ x ∈ toSet xs := by
    induction es generalizing ys with
    | nil => simp
    | cons e es ih =>
      obtain ⟨i, more⟩ := e
      rw [List.foldl_cons, ih, toSet_union, Set.mem_union]
      simp only [List.mem_cons, Prod.mk.injEq]
      grind
  rw [union, key, toSet_nil]
  simp only [mem_sets, Set.mem_empty_iff_false, false_or]

end NodeTable

namespace NodeTable

open ListSet

variable {t : NodeTable Snapshot} {target : Option Int} {xs : List Snapshot} {j : Int}

@[simp] theorem sets_send :
    (t.send target xs).sets j = t.sets j ∪ {x | target = some j ∧ x ∈ toSet xs} := by
  cases target with
  | none => simp [send]
  | some i =>
    rw [send]
    split
    · next h => simp [h]
    · rw [sets_add]
      simp only [Option.some_inj, eq_comm]

end NodeTable

end RuleDiagram
