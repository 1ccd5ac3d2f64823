import Mathlib.Data.Prod.Lex
import RuleDiagram.Search.Selection

/-!
# What a selection keeps

Where every fitness has a value, ranking sorts by a linear order: the fitter first, then the
smaller. A selection keeps members that it is given, no more than fit, with signatures that are
pairwise distinct; and the first of the survivors ranks no worse than any member there was.

## Main definitions

* `Standing.Definite`, `Standing.precedence`, `Standing.noLater`: standings with a value, and their
  places in the order

## Main results

* `pairwise_ranked`: ranked members are in order
* `mem_of_mem_select`, `length_select_le`, `nodup_signatures_select`: what the survivors are
* `perm_select`, `exists_select_eq_cons`: when all survive, and that somebody does
* `noWorse_of_select_eq_cons`: the first survivor ranks no worse than any member
-/

namespace RuleDiagram

/-! ## The order of rank -/

namespace Standing

variable {x y : Standing} {a b : Binary64}

/-- The fitness is a number that has a value. -/
def Definite (x : Standing) : Prop :=
  ∃ a : Binary64, x.fitness = some (.float a) ∧ a.isUndefined = false

/-- The place in the order of rank: the fitter come first, and of the equally fit the smaller. -/
def precedence (x : Standing) : ℤ ×ₗ ℕ :=
  match x.fitness with
  | some (.float a) => toLex (-a.position, x.size)
  | _ => toLex (0, x.size)

/-- The first place is no later than the second. -/
def noLater (x y : Standing) : Bool := decide (x.precedence ≤ y.precedence)

theorem precedence_of_fitness (hx : x.fitness = some (.float a)) :
    x.precedence = toLex (-a.position, x.size) := by
  simp [precedence, hx]

/-- With values, ranking no worse is a comparison of places. -/
theorem noWorse_eq_noLater (hx : x.Definite) (hy : y.Definite) : x.noWorse y = x.noLater y := by
  obtain ⟨a, hxa, ha⟩ := hx
  obtain ⟨b, hyb, hb⟩ := hy
  rw [Bool.eq_iff_iff, noLater, decide_eq_true_iff, precedence_of_fitness hxa,
    precedence_of_fitness hyb, Prod.Lex.toLex_le_toLex]
  simp only [noWorse, rank, hxa, hyb, Option.getD_some, Amount.less, Binary64.less, ha, hb]
  simp
  omega

/-- What it means in numbers to rank no worse. -/
theorem noWorse_iff (hx : x.fitness = some (.float a)) (hy : y.fitness = some (.float b))
    (ha : a.isUndefined = false) (hb : b.isUndefined = false) :
    x.noWorse y = true ↔ b.atMost a = true ∧ (a.atMost b = true → x.size ≤ y.size) := by
  rw [noWorse_eq_noLater ⟨a, hx, ha⟩ ⟨b, hy, hb⟩, noLater, decide_eq_true_iff,
    precedence_of_fitness hx, precedence_of_fitness hy, Prod.Lex.toLex_le_toLex]
  simp only [Binary64.atMost, ha, hb]
  simp
  omega

end Standing

section

variable {α : Type} {standing : α → Standing} {n : ℕ} {xs rest : List α} {x y : α}
  {members others : List (Standing × α)} {a b : Standing × α} {seen : List String}

@[simp] theorem mem_ranked : a ∈ ranked members ↔ a ∈ members := List.mem_mergeSort

/-- **Ranked members are in order**, where every fitness has a value. -/
theorem pairwise_ranked (h : ∀ a ∈ members, a.1.Definite) :
    (ranked members).Pairwise fun a b => a.1.noWorse b.1 = true := by
  -- On these members the comparison is that of places, which is total and transitive.
  have hsame : ∀ a ∈ members, ∀ b ∈ members, a.1.noWorse b.1 = (id a).1.noLater (id b).1 := by
    intro a ha b hb
    exact Standing.noWorse_eq_noLater (h a ha) (h b hb)
  have hsorted : ranked members = members.mergeSort fun a b => a.1.noLater b.1 := by
    have hmap := List.map_mergeSort (r := fun a b : Standing × α => a.1.noWorse b.1)
      (s := fun a b : Standing × α => a.1.noLater b.1) hsame
    rw [List.map_id, List.map_id] at hmap
    exact hmap
  have hpairwise : (members.mergeSort fun a b => a.1.noLater b.1).Pairwise
      fun a b => a.1.noLater b.1 = true := by
    apply List.pairwise_mergeSort
    · intro a b c hab hbc
      exact decide_eq_true ((of_decide_eq_true hab).trans (of_decide_eq_true hbc))
    · intro a b
      rw [Bool.or_eq_true, Standing.noLater, Standing.noLater, decide_eq_true_iff,
        decide_eq_true_iff]
      exact le_total a.1.precedence b.1.precedence
  rw [hsorted]
  refine hpairwise.imp_of_mem ?_
  intro a b ha hb hab
  rw [Standing.noWorse_eq_noLater (h a (List.mem_mergeSort.1 ha)) (h b (List.mem_mergeSort.1 hb))]
  exact hab

/-- The first of ranked members ranks no worse than any. -/
theorem noWorse_of_ranked_eq_cons (h : ∀ a ∈ members, a.1.Definite)
    (hranked : ranked members = a :: others) (hb : b ∈ members) : a.1.noWorse b.1 = true := by
  have hpairwise := pairwise_ranked h
  rw [hranked, List.pairwise_cons] at hpairwise
  rw [← mem_ranked, hranked] at hb
  rcases List.mem_cons.1 hb with rfl | hb
  · have hdefinite : b.1.Definite := h b (mem_ranked.1 (hranked ▸ List.mem_cons_self))
    rw [Standing.noWorse_eq_noLater hdefinite hdefinite]
    exact decide_eq_true le_rfl
  · exact hpairwise.1 b hb

/-! ## Members with new signatures -/

theorem distinctBySignature_sublist (seen : List String) (members : List (Standing × α)) :
    (distinctBySignature seen members).Sublist members := by
  induction members generalizing seen with
  | nil => exact List.Sublist.refl _
  | cons a rest ih =>
    unfold distinctBySignature
    split
    · exact (ih seen).cons a
    · exact (ih (a.1.signature :: seen)).cons_cons a

theorem signature_notMem_of_mem_distinctBySignature (h : a ∈ distinctBySignature seen members) :
    a.1.signature ∉ seen := by
  induction members generalizing seen with
  | nil => cases h
  | cons b rest ih =>
    unfold distinctBySignature at h
    split at h
    · exact ih h
    · next hnew =>
      rcases List.mem_cons.1 h with rfl | h
      · simpa using hnew
      · intro hseen
        apply ih h
        exact List.mem_cons_of_mem _ hseen

theorem nodup_signatures_distinctBySignature (seen : List String)
    (members : List (Standing × α)) :
    ((distinctBySignature seen members).map fun a => a.1.signature).Nodup := by
  induction members generalizing seen with
  | nil => exact List.nodup_nil
  | cons a rest ih =>
    unfold distinctBySignature
    split
    · exact ih seen
    · rw [List.map_cons, List.nodup_cons]
      refine ⟨?_, ih (a.1.signature :: seen)⟩
      -- What comes later has none of the signatures seen before.
      intro hmem
      obtain ⟨b, hb, heq⟩ := List.mem_map.1 hmem
      apply signature_notMem_of_mem_distinctBySignature hb
      rw [heq]
      exact List.mem_cons_self

theorem distinctBySignature_nil_cons (a : Standing × α) (members : List (Standing × α)) :
    distinctBySignature [] (a :: members) =
      a :: distinctBySignature [a.1.signature] members := by
  simp [distinctBySignature]

/-- Members with signatures of their own all stay. -/
theorem distinctBySignature_eq_self (h : (members.map fun a => a.1.signature).Nodup)
    (hseen : ∀ a ∈ members, a.1.signature ∉ seen) : distinctBySignature seen members = members := by
  induction members generalizing seen with
  | nil => rfl
  | cons a rest ih =>
    rw [List.map_cons, List.nodup_cons] at h
    have hnew : seen.contains a.1.signature = false := by
      simpa using hseen a List.mem_cons_self
    unfold distinctBySignature
    rw [hnew, if_neg Bool.false_ne_true]
    congr 1
    apply ih h.2
    intro b hb
    rw [List.mem_cons, not_or]
    refine ⟨?_, hseen b (List.mem_cons_of_mem a hb)⟩
    intro heq
    exact h.1 (heq ▸ List.mem_map_of_mem (f := fun a => a.1.signature) hb)

/-! ## Survivors -/

/-- Members are paired with their own standings. -/
theorem eq_of_mem_distinctBySignature
    (h : a ∈ distinctBySignature seen (ranked (xs.map fun x => (standing x, x)))) :
    a.2 ∈ xs ∧ a = (standing a.2, a.2) := by
  have hmem := (distinctBySignature_sublist _ _).subset h
  rw [mem_ranked, List.mem_map] at hmem
  obtain ⟨x, hx, rfl⟩ := hmem
  exact ⟨hx, rfl⟩

theorem mem_of_mem_select (h : x ∈ select standing n xs) : x ∈ xs := by
  obtain ⟨a, ha, rfl⟩ := List.mem_map.1 h
  exact (eq_of_mem_distinctBySignature (List.mem_of_mem_take ha)).1

theorem length_select_le : (select standing n xs).length ≤ n := by
  rw [select, List.length_map]
  exact List.length_take_le _ _

/-- **The signatures of the survivors are pairwise distinct.** -/
theorem nodup_signatures_select (standing : α → Standing) (n : ℕ) (xs : List α) :
    ((select standing n xs).map fun x => (standing x).signature).Nodup := by
  have hsignatures (a : Standing × α)
      (ha : a ∈ (distinctBySignature [] (ranked (xs.map fun x => (standing x, x)))).take n) :
      (standing a.2).signature = a.1.signature := by
    rw [(eq_of_mem_distinctBySignature (List.mem_of_mem_take ha)).2]
  rw [select, List.map_map, Function.comp_def, List.map_congr_left hsignatures]
  exact ((List.take_sublist _ _).map _).nodup (nodup_signatures_distinctBySignature [] _)

/-- Everybody survives where there is room for all and the signatures are pairwise distinct. -/
theorem perm_select (hn : xs.length ≤ n)
    (hnodup : (xs.map fun x => (standing x).signature).Nodup) :
    (select standing n xs).Perm xs := by
  have hperm : (ranked (xs.map fun x => (standing x, x))).Perm (xs.map fun x => (standing x, x)) :=
    List.mergeSort_perm _ _
  have hsignatures : ((ranked (xs.map fun x => (standing x, x))).map
      fun a => a.1.signature).Nodup := by
    rw [(hperm.map _).nodup_iff, List.map_map]
    exact hnodup
  have hlength : (ranked (xs.map fun x => (standing x, x))).length ≤ n := by
    rw [hperm.length_eq, List.length_map]
    exact hn
  rw [select, distinctBySignature_eq_self hsignatures fun a _ => List.not_mem_nil,
    List.take_of_length_le hlength]
  have hmembers : (xs.map fun x => (standing x, x)).map Prod.snd = xs := by
    rw [List.map_map]
    exact List.map_id xs
  have hsurvivors := hperm.map Prod.snd
  rw [hmembers] at hsurvivors
  exact hsurvivors

/-- **Somebody survives** where there is room and anybody is there. -/
theorem exists_select_eq_cons (standing : α → Standing) (hn : 0 < n) (hxs : xs ≠ []) :
    ∃ x rest, select standing n xs = x :: rest := by
  obtain ⟨m, rfl⟩ := Nat.exists_eq_add_of_lt hn
  have hne : ranked (xs.map fun x => (standing x, x)) ≠ [] := by
    intro hnil
    obtain ⟨x, hx⟩ := List.exists_mem_of_ne_nil xs hxs
    have hmem : (standing x, x) ∈ ranked (xs.map fun x => (standing x, x)) := by
      rw [mem_ranked]
      exact List.mem_map_of_mem hx
    rw [hnil] at hmem
    cases hmem
  obtain ⟨a, members, hranked⟩ := List.exists_cons_of_ne_nil hne
  rw [select, hranked, distinctBySignature_nil_cons, Nat.zero_add, List.take_succ_cons]
  exact ⟨_, _, rfl⟩

/-- **The first survivor ranks no worse than any member**, where every fitness has a value. -/
theorem noWorse_of_select_eq_cons (hdefinite : ∀ x ∈ xs, (standing x).Definite)
    (h : select standing n xs = x :: rest) (hy : y ∈ xs) :
    (standing x).noWorse (standing y) = true := by
  rw [select] at h
  have hmembers : ∀ a ∈ xs.map fun x => (standing x, x), a.1.Definite := by
    intro a ha
    obtain ⟨z, hz, rfl⟩ := List.mem_map.1 ha
    exact hdefinite z hz
  cases hranked : ranked (xs.map fun x => (standing x, x)) with
  | nil => simp [hranked, distinctBySignature] at h
  | cons a members =>
    rw [hranked, distinctBySignature_nil_cons] at h
    cases n with
    | zero => simp at h
    | succ n =>
      rw [List.take_succ_cons, List.map_cons, List.cons.injEq] at h
      obtain ⟨rfl, -⟩ := h
      have ha : a ∈ distinctBySignature [] (ranked (xs.map fun x => (standing x, x))) := by
        rw [hranked, distinctBySignature_nil_cons]
        exact List.mem_cons_self
      have hfirst := noWorse_of_ranked_eq_cons hmembers hranked (List.mem_map_of_mem hy)
      rw [(eq_of_mem_distinctBySignature ha).2] at hfirst
      exact hfirst

end

end RuleDiagram
