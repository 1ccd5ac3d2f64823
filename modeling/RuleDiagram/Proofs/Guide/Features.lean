import Mathlib.Algebra.BigOperators.Group.Finset.Basic
import Mathlib.Algebra.Order.Field.Basic
import Mathlib.Data.Rat.Cast.Order
import Mathlib.Tactic.Linarith
import RuleDiagram.Guide.Features
import RuleDiagram.Proofs.Diagram.Valid

/-!
# Features are shares of one whole

Each feature of a valid diagram is a proper part of a whole that is not zero. The features fall into
groups that count the same things: every node is a branch or a leaf; every edge is open, or leads
somewhere, perhaps back; every term is of one of three kinds; and every node has one predicate of
the registry, or none if it is a pass-through branch, since validation accepts no other. Within a
group the shares are parts of one whole.

## Main definitions

* `Share.value`: the exact value of a share
* `Share.Proper`: a share that is a part of its whole

## Main results

* `Diagram.Valid.exists_reachable_length_le`: no more indices are reachable than there are nodes
* `FeatureSpace.openEdges_add`: open edges and targets are all edges of the branches
* `FeatureSpace.sum_uses`: every node is a pass-through branch or uses a registered predicate
* `FeatureSpace.features_exact`: the features of a valid diagram
-/

namespace RuleDiagram

/-! ## Parts of a whole -/

namespace Share

variable {s : Share} {part whole : Int} {k n : ℕ}

/-- **The exact value of a share.** -/
def value (s : Share) : ℚ := s.part / s.whole

/-- The share is a part of a whole other than zero. -/
structure Proper (s : Share) : Prop where
  whole_pos : 0 < s.whole
  part_nonneg : 0 ≤ s.part
  part_le : s.part ≤ s.whole

theorem Proper.value_mem (h : s.Proper) : 0 ≤ s.value ∧ s.value ≤ 1 := by
  have hwhole : (0 : ℚ) < s.whole := Int.cast_pos.2 h.whole_pos
  have hpart : (0 : ℚ) ≤ s.part := Int.cast_nonneg h.part_nonneg
  exact ⟨div_nonneg hpart hwhole.le, (div_le_one hwhole).2 (Int.cast_le.2 h.part_le)⟩

theorem value_add_value (part part' whole : Int) :
    (⟨part, whole⟩ : Share).value + (⟨part', whole⟩ : Share).value =
      (⟨part + part', whole⟩ : Share).value := by
  simp only [value, Int.cast_add, add_div]

theorem value_self (h : whole ≠ 0) : (⟨whole, whole⟩ : Share).value = 1 :=
  div_self (Int.cast_ne_zero.2 h)

/-- **Shares of one whole** add up as their parts do. -/
theorem sum_value {shares : List Share} (h : ∀ s ∈ shares, s.whole = whole) :
    (shares.map value).sum = (⟨(shares.map Share.part).sum, whole⟩ : Share).value := by
  induction shares with
  | nil => simp [value]
  | cons s shares ih =>
    obtain ⟨rfl, hshares⟩ := List.forall_mem_cons.1 h
    rw [List.map_cons, List.sum_cons, ih hshares, List.map_cons, List.sum_cons]
    exact value_add_value _ _ _

theorem proper_capped (hpart : 0 ≤ part) (hwhole : 0 < whole) : (capped part whole).Proper := by
  unfold capped
  split
  · exact ⟨Int.one_pos, Int.one_nonneg, Int.le_refl 1⟩
  · exact ⟨hwhole, hpart, by dsimp only; omega⟩

theorem proper_of_le (h : k ≤ n) (hn : 0 < n) : (⟨k, n⟩ : Share).Proper :=
  ⟨Int.natCast_pos.2 hn, Int.natCast_nonneg k, Int.ofNat_le.2 h⟩

end Share

/-! ## Counting by a key -/

/-- **Members counted by a key** are counted once each, if all their keys are listed. -/
theorem sum_length_filter_eq_length {α κ : Type} [DecidableEq κ] {xs : List α} {key : α → κ}
    {keys : List κ} (hkeys : keys.Nodup) (h : ∀ x ∈ xs, key x ∈ keys) :
    (keys.map fun k => (xs.filter fun x => decide (key x = k)).length).sum = xs.length := by
  have hcount (k : κ) : (xs.filter fun x => decide (key x = k)).length =
      Multiset.count k ((xs.map key : List κ) : Multiset κ) := by
    rw [Multiset.coe_count, List.count, List.countP_map, List.countP_eq_length_filter]
    rfl
  have hsum := Multiset.sum_count_eq_card (s := keys.toFinset)
    (m := ((xs.map key : List κ) : Multiset κ)) fun k hk => by
      obtain ⟨x, hx, rfl⟩ := List.mem_map.1 (Multiset.mem_coe.1 hk)
      exact List.mem_toFinset.2 (h x hx)
  rw [List.sum_toFinset _ hkeys, Multiset.coe_card, List.length_map] at hsum
  simp only [hcount]
  exact hsum

namespace Diagram.Valid

variable {d : Diagram} {registry : Option Registry}

theorem size_pos (h : d.Valid registry) : 0 < d.size := List.length_pos_of_ne_nil h.nonempty

/-- **No more indices are reachable** than there are nodes. -/
theorem exists_reachable_length_le (h : d.Valid registry) :
    ∃ R, d.reachable = .ok R ∧ R.length ≤ d.size := by
  obtain ⟨R, hR, hmem⟩ := exists_reachable h.root h.targets
  have hnodup : R.Nodup := by
    obtain ⟨seen, -, rfl⟩ := Except.map_eq_ok_iff.1 hR
    exact nodup_ascending seen
  have hsub : R.toFinset ⊆ d.indices := by
    intro i hi
    obtain ⟨way, hway⟩ := (hmem i).1 (List.mem_toFinset.1 hi)
    exact mem_indices.2 (hway.inRange h.root h.targets)
  have hcard := (Finset.card_le_card hsub).trans card_indices_le
  rw [List.toFinset_card_of_nodup hnodup] at hcard
  exact ⟨R, hR, hcard⟩

end Diagram.Valid

namespace FeatureSpace

variable {d : Diagram} {r : Registry} {maxNodes maxRegisters : Int}

/-! ## Nodes -/

theorem countNodes_le (d : Diagram) (property : Node → Bool) : countNodes d property ≤ d.size :=
  List.length_filter_le _ _

/-- The nodes with a property are branches or leaves. -/
theorem countNodes_add (d : Diagram) (property : Node → Bool) :
    (countNodes d fun n => n.isBranch && property n) +
      (countNodes d fun n => !n.isBranch && property n) = countNodes d property := by
  unfold countNodes
  rw [List.length_eq_length_filter_add (l := d.nodes.filter property) Node.isBranch,
    List.filter_filter, List.filter_filter]

/-- In a valid diagram the nodes without a predicate are the pass-through branches. -/
theorem countNodes_isPassThrough (h : d.Valid (some r)) : countNodes d Node.isPassThrough =
    countNodes d fun n => decide (n.pattern.predicate = none) := by
  refine congrArg List.length (List.filter_congr fun n hn => ?_)
  cases n with
  | branch p m f =>
    rw [Node.isPassThrough, Pattern.isPassThrough, Node.pattern]
    cases p.predicate <;> rfl
  | leaf p =>
    obtain ⟨hpredicate, -⟩ := (h.nodes _ hn).leaf rfl
    rw [Node.isPassThrough, decide_eq_false hpredicate]

/-- **Every node of a valid diagram** is a pass-through branch, or a branch or leaf with one
predicate of the registry. -/
theorem sum_uses (h : d.Valid (some r)) : countNodes d Node.isPassThrough +
    (r.predicates.map fun p => countNodes d fun n => decide (n.pattern.predicate = some p)).sum =
      d.size := by
  have hkeys : (none :: r.predicates.map some).Nodup := by
    refine List.nodup_cons.2 ⟨by simp, ?_⟩
    exact (List.Nodup.of_map _ r.names_nodup).map (Option.some_injective _)
  have hmem : ∀ n ∈ d.nodes, n.pattern.predicate ∈ none :: r.predicates.map some := by
    intro n hn
    cases hp : n.pattern.predicate with
    | none => exact List.mem_cons_self
    | some q =>
      have hq := (h.nodes n hn).registered q r hp rfl
      exact List.mem_cons_of_mem _ (List.mem_map_of_mem hq)
  have hsum := sum_length_filter_eq_length hkeys hmem
  rw [List.map_cons, List.sum_cons, List.map_map] at hsum
  rw [countNodes_isPassThrough h]
  exact hsum

/-- The parts of the shares of a predicate are the nodes that use it. -/
theorem sum_part_predicateUse (d : Diagram) (p : Predicate) :
    ((predicateUse d p).map Share.part).sum =
      (countNodes d fun n => decide (n.pattern.predicate = some p) : ℕ) := by
  rw [← countNodes_add d fun n => decide (n.pattern.predicate = some p)]
  simp [predicateUse]

theorem sum_part_flatMap_predicateUse (d : Diagram) (ps : List Predicate) :
    ((ps.flatMap (predicateUse d)).map Share.part).sum =
      ((ps.map fun p => countNodes d fun n => decide (n.pattern.predicate = some p)).sum : ℕ) := by
  induction ps with
  | nil => rfl
  | cons p ps ih =>
    rw [List.flatMap_cons, List.map_append, List.sum_append, ih, sum_part_predicateUse,
      List.map_cons, List.sum_cons, Nat.cast_add]

theorem mem_predicateUse {p : Predicate} {s : Share} (hs : s ∈ predicateUse d p) :
    ∃ k ≤ d.size, s = ⟨(k : ℕ), d.size⟩ := by
  simp only [predicateUse, List.mem_cons, List.not_mem_nil, or_false] at hs
  obtain rfl | rfl := hs
  · exact ⟨_, countNodes_le d _, rfl⟩
  · exact ⟨_, countNodes_le d _, rfl⟩

theorem length_flatMap_predicateUse (d : Diagram) (ps : List Predicate) :
    (ps.flatMap (predicateUse d)).length = 2 * ps.length := by
  induction ps with
  | nil => rfl
  | cons p ps ih =>
    rw [List.flatMap_cons, List.length_append, ih, List.length_cons]
    simp [predicateUse]
    omega

/-! ## Edges -/

/-- **Open edges and targets** are all edges of the branches, of which each has two. -/
theorem openEdges_add (d : Diagram) : openEdges d + (d.nodes.flatMap Node.targets).length =
    2 * countNodes d Node.isBranch := by
  unfold openEdges countNodes
  induction d.nodes with
  | nil => rfl
  | cons n ns ih =>
    rw [List.flatMap_cons, List.flatMap_cons, List.length_append, List.length_append]
    cases n with
    | branch p m f =>
      rw [List.filter_cons_of_pos rfl, List.length_cons]
      cases m <;> cases f <;> simp [Node.children, Node.targets] at ih ⊢ <;> omega
    | leaf p =>
      rw [List.filter_cons_of_neg Bool.false_ne_true]
      simpa [Node.children, Node.targets] using ih

/-- Backward edges are among those that have a target. -/
theorem backEdges_le (d : Diagram) : backEdges d ≤ (d.nodes.flatMap Node.targets).length := by
  have hnodes : d.nodes.flatMap Node.targets = d.nodes.zipIdx.flatMap fun x => x.1.targets := by
    conv_lhs => rw [← List.zipIdx_map_fst 0 d.nodes, List.flatMap_map]
  rw [hnodes]
  unfold backEdges
  induction d.nodes.zipIdx with
  | nil => exact Nat.le_refl _
  | cons x xs ih =>
    rw [List.flatMap_cons, List.flatMap_cons, List.length_append, List.length_append]
    exact Nat.add_le_add (List.length_filter_le _ _) ih

/-! ## Terms -/

/-- The terms of all patterns. -/
def termsOf (d : Diagram) : List Term := d.nodes.flatMap fun n => n.pattern.terms

/-- The number of terms of a kind. -/
def countTerms (d : Diagram) (kind : ℕ) : ℕ :=
  ((termsOf d).filter fun t => decide (t.kind = kind)).length

/-- The terms among which those of a kind are counted. -/
def termTotal (d : Diagram) : ℕ := max (termsOf d).length 1

theorem termTotal_pos (d : Diagram) : 0 < termTotal d :=
  Nat.lt_of_lt_of_le Nat.one_pos (Nat.le_max_right _ _)

theorem termKinds_eq (d : Diagram) : termKinds d = [⟨countTerms d 0, termTotal d⟩,
    ⟨countTerms d 1, termTotal d⟩, ⟨countTerms d 2, termTotal d⟩] := by
  rw [termTotal, Nat.cast_max]
  rfl

theorem countTerms_le (d : Diagram) (kind : ℕ) : countTerms d kind ≤ termTotal d :=
  (List.length_filter_le _ _).trans (Nat.le_max_left _ _)

/-- Every term is of one of three kinds. -/
theorem countTerms_add (d : Diagram) :
    countTerms d 0 + (countTerms d 1 + countTerms d 2) = (termsOf d).length := by
  have hmem : ∀ t ∈ termsOf d, t.kind ∈ [0, 1, 2] := by
    intro t _
    cases t <;> simp [Term.kind]
  simpa [countTerms] using sum_length_filter_eq_length (by decide) hmem

/-! ## All features -/

/-- The edges among which open and backward ones are counted. -/
def edgeTotal (d : Diagram) : ℕ := max (2 * countNodes d Node.isBranch) 1

theorem edgeTotal_pos (d : Diagram) : 0 < edgeTotal d :=
  Nat.lt_of_lt_of_le Nat.one_pos (Nat.le_max_right _ _)

/-- Open and backward edges are different edges of the branches. -/
theorem openEdges_add_backEdges_le (d : Diagram) : openEdges d + backEdges d ≤ edgeTotal d := by
  have hopen := openEdges_add d
  have hback := backEdges_le d
  unfold edgeTotal
  omega

theorem proper_of_mem_flatMap_predicateUse (hsize : 0 < d.size) {ps : List Predicate} :
    ∀ s ∈ ps.flatMap (predicateUse d), s.Proper := by
  intro s hs
  obtain ⟨p, -, hp⟩ := List.mem_flatMap.1 hs
  obtain ⟨k, hk, rfl⟩ := mem_predicateUse hp
  exact Share.proper_of_le hk hsize

/-- The features other than those of predicates, given the number of reachable nodes. -/
def fixedShares (d : Diagram) (reached : ℕ) (maxNodes maxRegisters : Int) : List Share :=
  [.capped d.size maxNodes, ⟨reached, d.size⟩, ⟨countNodes d Node.isBranch, d.size⟩,
    ⟨d.size - countNodes d Node.isBranch, d.size⟩, ⟨countNodes d Node.isPassThrough, d.size⟩,
    ⟨openEdges d, edgeTotal d⟩, ⟨backEdges d, edgeTotal d⟩,
    .capped d.registers.length maxRegisters, ⟨countTerms d 0, termTotal d⟩,
    ⟨countTerms d 1, termTotal d⟩, ⟨countTerms d 2, termTotal d⟩]

theorem proper_of_mem_fixedShares {reached : ℕ} (hsize : 0 < d.size) (hreached : reached ≤ d.size)
    (hnodes : 1 ≤ maxNodes) (hregisters : 1 ≤ maxRegisters) :
    ∀ s ∈ fixedShares d reached maxNodes maxRegisters, s.Proper := by
  have hnode (property : Node → Bool) := Share.proper_of_le (countNodes_le d property) hsize
  have hedges := openEdges_add_backEdges_le d
  have hterm (kind : ℕ) := Share.proper_of_le (countTerms_le d kind) (termTotal_pos d)
  have hleaves : (⟨d.size - countNodes d Node.isBranch, d.size⟩ : Share).Proper := by
    have hbranches := countNodes_le d Node.isBranch
    exact ⟨Int.natCast_pos.2 hsize, by dsimp only; omega, by dsimp only; omega⟩
  simp only [fixedShares, List.forall_mem_cons]
  exact ⟨Share.proper_capped (Int.natCast_nonneg _) hnodes, Share.proper_of_le hreached hsize,
    hnode _, hleaves, hnode _,
    Share.proper_of_le (Nat.le_trans (Nat.le_add_right _ _) hedges) (edgeTotal_pos d),
    Share.proper_of_le (Nat.le_trans (Nat.le_add_left _ _) hedges) (edgeTotal_pos d),
    Share.proper_capped (Int.natCast_nonneg _) hregisters, hterm 0, hterm 1, hterm 2,
    List.forall_mem_nil _⟩

/-- A valid diagram has features. -/
theorem features_eq_ok {R : List Int} (hR : d.reachable = .ok R) (hnodes : 1 ≤ maxNodes)
    (hregisters : 1 ≤ maxRegisters) : features ⟨r.predicates, maxNodes, maxRegisters⟩ d =
      .ok (fixedShares d R.length maxNodes maxRegisters ++
        r.predicates.flatMap (predicateUse d)) := by
  have hbounds : ¬(maxNodes = 0 ∨ maxRegisters = 0) := by omega
  unfold features
  rw [hR, termKinds_eq]
  simp only [Except.mapError, hbounds, if_false]
  rfl

/-- **The features of a valid diagram**, as exact quotients: one for each dimension, each of them
between zero and one. The shares of branches and leaves add up to one; those of open and backward
edges to no more than one; those of the three kinds of terms to one if there is any term, and they
are zero otherwise; and the share of pass-through branches with those of the branches and leaves of
all predicates to one. -/
theorem features_exact (hd : d.validate (some r) = .ok d) (hnodes : 1 ≤ maxNodes)
    (hregisters : 1 ≤ maxRegisters) : ∃ shares,
      features ⟨r.predicates, maxNodes, maxRegisters⟩ d = .ok shares ∧
      shares.length = dimension ⟨r.predicates, maxNodes, maxRegisters⟩ ∧
      (∀ s ∈ shares, s.whole ≠ 0 ∧ 0 ≤ s.value ∧ s.value ≤ 1) ∧
      ∃ size reached branches leaves passing opens backs registers constants references frees uses,
        shares = [size, reached, branches, leaves, passing, opens, backs, registers, constants,
          references, frees] ++ uses ∧
        branches.value + leaves.value = 1 ∧
        opens.value + backs.value ≤ 1 ∧
        ((∃ n ∈ d.nodes, n.pattern.terms ≠ []) →
          constants.value + references.value + frees.value = 1) ∧
        ((∀ n ∈ d.nodes, n.pattern.terms = []) →
          constants.value = 0 ∧ references.value = 0 ∧ frees.value = 0) ∧
        passing.value + (uses.map Share.value).sum = 1 := by
  have hvalid : d.Valid (some r) :=
    Diagram.fault?_eq_none_iff_valid.1 (Diagram.validate_eq_ok_iff.1 hd).1
  obtain ⟨R, hR, hreachable⟩ := hvalid.exists_reachable_length_le
  have hsize := hvalid.size_pos
  have hne : (d.size : ℤ) ≠ 0 := Int.natCast_ne_zero.2 hsize.ne'
  refine ⟨_, features_eq_ok hR hnodes hregisters, ?_, ?_, _, _, _, _, _, _, _, _, _, _, _,
    r.predicates.flatMap (predicateUse d), rfl, ?_, ?_, ?_, ?_, ?_⟩
  · rw [List.length_append, length_flatMap_predicateUse]
    rfl
  · intro s hs
    have hproper : s.Proper := (List.mem_append.1 hs).elim
      (proper_of_mem_fixedShares hsize hreachable hnodes hregisters s)
      (proper_of_mem_flatMap_predicateUse hsize s)
    exact ⟨hproper.whole_pos.ne', hproper.value_mem⟩
  · rw [Share.value_add_value, add_sub_cancel, Share.value_self hne]
  · rw [Share.value_add_value, ← Nat.cast_add]
    exact (Share.proper_of_le (openEdges_add_backEdges_le d) (edgeTotal_pos d)).value_mem.2
  · rintro ⟨n, hn, hterms⟩
    have hpos : 0 < (termsOf d).length := by
      obtain ⟨t, ht⟩ := List.exists_mem_of_ne_nil _ hterms
      exact List.length_pos_of_mem (List.mem_flatMap.2 ⟨n, hn, ht⟩)
    have htotal : countTerms d 0 + countTerms d 1 + countTerms d 2 = termTotal d := by
      rw [Nat.add_assoc, countTerms_add, termTotal, Nat.max_eq_left hpos]
    rw [Share.value_add_value, Share.value_add_value, ← Nat.cast_add, ← Nat.cast_add, htotal,
      Share.value_self (Int.natCast_ne_zero.2 (termTotal_pos d).ne')]
  · intro hterms
    have hnil : termsOf d = [] := List.flatMap_eq_nil_iff.2 hterms
    have hzero (kind : ℕ) : (⟨countTerms d kind, termTotal d⟩ : Share).value = 0 := by
      rw [countTerms, hnil, Share.value]
      exact zero_div _
    exact ⟨hzero 0, hzero 1, hzero 2⟩
  · have hwhole : ∀ s ∈ r.predicates.flatMap (predicateUse d), s.whole = (d.size : ℤ) := by
      intro s hs
      obtain ⟨p, -, hp⟩ := List.mem_flatMap.1 hs
      obtain ⟨k, -, rfl⟩ := mem_predicateUse hp
      rfl
    rw [Share.sum_value hwhole, Share.value_add_value, sum_part_flatMap_predicateUse,
      ← Nat.cast_add, sum_uses hvalid, Share.value_self hne]

end FeatureSpace

namespace Reachability

/-- The predicates of the graphs here. -/
def vocabulary : Registry := ⟨[start, edge, reach], by decide⟩

/-- One node of five is a pass-through branch, and the other four use the three predicates. -/
theorem features_diagram : diagram.validate (some vocabulary) = .ok diagram ∧ ∃ shares,
    FeatureSpace.features ⟨vocabulary.predicates, 64, 16⟩ diagram = .ok shares ∧
      shares.length = 17 ∧ (∀ s ∈ shares, 0 ≤ s.value ∧ s.value ≤ 1) ∧
      ((shares.drop 11).map Share.value).sum = 4 / 5 := by
  have hvalid : diagram.validate (some vocabulary) = .ok diagram := rfl
  have hfive : (FeatureSpace.features ⟨vocabulary.predicates, 64, 16⟩ diagram).toOption.bind
      (fun shares => shares[4]?) = some ⟨1, 5⟩ := by
    decide +kernel
  obtain ⟨_, hshares, hlength, hmem, _, _, _, _, passing, _, _, _, _, _, _, uses, rfl, -, -, -, -,
    hsum⟩ := FeatureSpace.features_exact hvalid (show (1 : Int) ≤ 64 by decide)
      (show (1 : Int) ≤ 16 by decide)
  rw [hshares] at hfive
  obtain rfl : passing = ⟨1, 5⟩ := Option.some_inj.1 hfive
  refine ⟨hvalid, _, hshares, hlength, fun s hs => (hmem s hs).2, ?_⟩
  have hfifth : (⟨1, 5⟩ : Share).value = 1 / 5 := by norm_num [Share.value]
  rw [hfifth] at hsum
  change (uses.map Share.value).sum = 4 / 5
  linarith

end Reachability

end RuleDiagram
