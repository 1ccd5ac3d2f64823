import Mathlib.Data.Fintype.EquivFin
import RuleDiagram.Proofs.Diagram.Respected
import RuleDiagram.Proofs.Reachability

/-!
# Bound registers are the meet over all ways

A way from the root follows edges, as often through the same node as it likes; in a diagram with
cycles there are infinitely many. On a way those registers are written that free terms name at the
branches it leaves through the match edge. The analysis of bound registers, which tells each node
only what has changed, ends with exactly the registers that all ways to a node write, for exactly
the nodes that some way leads to.

That the entries hold no register too many follows along each way, as the final table respects
every edge. That they lack none follows by the sets that all ways to an index write, which the
edges respect.

## Main definitions

* `Diagram.Way`: the ways from the root, each the nodes it leaves and the edges it takes there
* `Diagram.WrittenOn`: the registers written on a way
* `Diagram.MeetOverWays`: tables of the registers written on all ways

## Main results

* `Diagram.exists_reachFrom`: the search for reachable indices finds those that some way leads to
* `Diagram.meetOverWays_bound`: the analysis of bound registers ends with the meet over all ways
-/

namespace RuleDiagram

variable {d : Diagram} {s s' : BoundState} {T : BoundTable} {i t r : Int} {rs entry : List Int}
  {way : List (Int × Edge)}

namespace Diagram

/-- **The ways from the root to an index**: the empty one to the root, and any way followed by an
edge of the node it leads to. -/
inductive Way (d : Diagram) : List (Int × Edge) → Int → Prop where
  | root : d.Way [] d.root
  | step {way : List (Int × Edge)} {i t : Int} {n : Node} {e : Edge} (hway : d.Way way i)
      (hn : d.node? i = some n) (ht : (e, some t) ∈ n.children) : d.Way (way ++ [(i, e)]) t

/-- The register is written on the way: a free term names it at a branch that the way leaves
through the match edge. -/
def WrittenOn (d : Diagram) (way : List (Int × Edge)) (r : Int) : Prop :=
  ∃ i p m f, (i, .onMatch) ∈ way ∧ d.node? i = some (.branch p m f) ∧ .free r ∈ p.terms

/-- **The meet over all ways**: the indices that some way leads to, once each, and at each of them
the registers that are written on every way there. -/
structure MeetOverWays (d : Diagram) (T : BoundTable) : Prop where
  nodup : (T.map Prod.fst).Nodup
  keys : ∀ i, i ∈ T.map Prod.fst ↔ ∃ way, d.Way way i
  nodup_entry : ∀ i entry, T.lookup i = some entry → entry.Nodup
  entries : ∀ i entry, T.lookup i = some entry →
    ∀ r, r ∈ entry ↔ ∀ way, d.Way way i → d.WrittenOn way r

theorem WrittenOn.append {rest : List (Int × Edge)} (h : d.WrittenOn way r) :
    d.WrittenOn (way ++ rest) r := by
  obtain ⟨i, p, m, f, hi, hn, hr⟩ := h
  exact ⟨i, p, m, f, List.mem_append_left _ hi, hn, hr⟩

/-- One more edge writes what its branch writes, if it is the match edge, and else nothing. -/
theorem writtenOn_concat {e : Edge} : d.WrittenOn (way ++ [(i, e)]) r ↔
    d.WrittenOn way r ∨
      e = .onMatch ∧ ∃ p m f, d.node? i = some (.branch p m f) ∧ .free r ∈ p.terms := by
  constructor
  · rintro ⟨j, p, m, f, hj, hn, hr⟩
    rcases List.mem_append.1 hj with hj | hj
    · exact .inl ⟨j, p, m, f, hj, hn, hr⟩
    · obtain ⟨rfl, rfl⟩ := Prod.mk.inj (List.mem_singleton.1 hj)
      exact .inr ⟨rfl, p, m, f, hn, hr⟩
  · rintro (h | ⟨rfl, p, m, f, hn, hr⟩)
    · exact h.append
    · exact ⟨i, p, m, f, List.mem_append_right _ List.mem_cons_self, hn, hr⟩

theorem not_writtenOn_nil : ¬ d.WrittenOn [] r := by
  rintro ⟨i, p, m, f, hi, -, -⟩
  cases hi

/-! ## The search for reachable indices -/

/-- What the search keeps: no index is met twice, all indices met or pending are in range and some
way leads to them, and the edges from the indices met lead to indices met or pending. -/
structure Exploring (d : Diagram) (seen pending : List Int) : Prop where
  nodup : seen.Nodup
  inRange : ∀ i, i ∈ seen ∨ i ∈ pending → inRange d.size i
  ways : ∀ i, i ∈ seen ∨ i ∈ pending → ∃ way, d.Way way i
  root : d.root ∈ seen ∨ d.root ∈ pending
  targets : ∀ i n, i ∈ seen → d.node? i = some n → ∀ t ∈ n.targets, t ∈ seen ∨ t ∈ pending

namespace Exploring

variable {seen pending : List Int}

theorem start (hroot : RuleDiagram.inRange d.size d.root) : d.Exploring [] [d.root] where
  nodup := List.nodup_nil
  inRange i hi := by
    obtain rfl : i = d.root := by simpa using hi
    exact hroot
  ways i hi := by
    obtain rfl : i = d.root := by simpa using hi
    exact ⟨[], .root⟩
  root := .inr List.mem_cons_self
  targets i n hi := by cases hi

/-- An index that has been met is passed over. -/
theorem pass (h : d.Exploring seen (i :: pending)) (hi : i ∈ seen) : d.Exploring seen pending := by
  have hmem (j : Int) : j ∈ seen ∨ j ∈ i :: pending ↔ j ∈ seen ∨ j ∈ pending := by
    rw [List.mem_cons]
    constructor
    · rintro (hj | rfl | hj)
      · exact .inl hj
      · exact .inl hi
      · exact .inr hj
    · exact Or.imp_right .inr
  exact ⟨h.nodup, fun j hj => h.inRange j ((hmem j).2 hj), fun j hj => h.ways j ((hmem j).2 hj),
    (hmem _).1 h.root, fun j n hj hn t ht => (hmem t).1 (h.targets j n hj hn t ht)⟩

/-- An index met for the first time makes the targets of its node pending. -/
theorem meet {n : Node} (h : d.Exploring seen (i :: pending)) (hi : i ∉ seen)
    (hn : d.node? i = some n) (htargets : ∀ t ∈ n.targets, RuleDiagram.inRange d.size t) :
    d.Exploring (seen ++ [i]) (n.targets.reverse ++ pending) := by
  have hmem (j : Int) : j ∈ seen ++ [i] ∨ j ∈ n.targets.reverse ++ pending ↔
      (j ∈ seen ∨ j ∈ i :: pending) ∨ j ∈ n.targets := by
    simp only [List.mem_append, List.mem_reverse, List.mem_cons, List.not_mem_nil, or_false]
    tauto
  refine ⟨?_, fun j hj => ?_, fun j hj => ?_, (hmem _).2 (.inl h.root), fun j m hj hm t ht => ?_⟩
  · refine List.nodup_append'.2 ⟨h.nodup, List.nodup_singleton i, fun j hj hji => ?_⟩
    exact hi (List.mem_singleton.1 hji ▸ hj)
  · exact ((hmem j).1 hj).elim (h.inRange j) (htargets j)
  · rcases (hmem j).1 hj with hj | hj
    · exact h.ways j hj
    · obtain ⟨way, hway⟩ := h.ways i (.inr List.mem_cons_self)
      obtain ⟨⟨e, -⟩, he, rfl⟩ := List.mem_filterMap.1 hj
      exact ⟨_, hway.step hn he⟩
  · rw [hmem]
    rcases List.mem_append.1 hj with hj | hj
    · exact .inl (h.targets j m hj hm t ht)
    · obtain rfl := List.mem_singleton.1 hj
      exact .inr (Option.some_inj.1 (hm.symm.trans hn) ▸ ht)

theorem length_lt (h : d.Exploring seen (i :: pending)) (hi : i ∉ seen) :
    seen.length < d.size := by
  -- The indices met and the new one are different places of the diagram.
  have hnodup : (i :: seen).Nodup := List.nodup_cons.2 ⟨hi, h.nodup⟩
  have hsub : (i :: seen).toFinset ⊆ d.indices := by
    intro j hj
    refine mem_indices.2 (h.inRange j ?_)
    rcases List.mem_cons.1 (List.mem_toFinset.1 hj) with rfl | hj
    · exact .inr List.mem_cons_self
    · exact .inl hj
  have hcard := (Finset.card_le_card hsub).trans card_indices_le
  rwa [List.toFinset_card_of_nodup hnodup] at hcard

/-- Where nothing is pending, the indices met are those that some way leads to. -/
theorem mem_iff_of_nil (h : d.Exploring seen []) : i ∈ seen ↔ ∃ way, d.Way way i := by
  refine ⟨fun hi => h.ways i (.inl hi), ?_⟩
  rintro ⟨way, hway⟩
  -- Induction on the way: the indices met are closed under edges.
  induction hway with
  | root => exact h.root.resolve_right List.not_mem_nil
  | step _ hn ht ih =>
    exact (h.targets _ _ ih hn _ (List.mem_filterMap.2 ⟨_, ht, rfl⟩)).resolve_right List.not_mem_nil

end Exploring

theorem exists_reachFrom {steps : ℕ} {seen pending : List Int}
    (htargets : ∀ n ∈ d.nodes, ∀ t ∈ n.targets, inRange d.size t) (h : d.Exploring seen pending)
    (hsteps : pending.length + 2 * (d.size - seen.length) ≤ steps) :
    ∃ R, d.reachFrom steps seen pending = .ok R ∧ ∀ i, i ∈ R ↔ ∃ way, d.Way way i := by
  -- Induction on the steps: an index met for the first time leaves two steps to each other one.
  induction steps generalizing seen pending with
  | zero =>
    obtain rfl : pending = [] := List.eq_nil_of_length_eq_zero (by omega)
    exact ⟨seen, rfl, fun i => h.mem_iff_of_nil⟩
  | succ steps ih =>
    cases pending with
    | nil => exact ⟨seen, rfl, fun i => h.mem_iff_of_nil⟩
    | cons i pending =>
      rw [List.length_cons] at hsteps
      unfold reachFrom
      by_cases hi : i ∈ seen
      · simp only [if_pos hi]
        exact ih (h.pass hi) (by omega)
      · obtain ⟨n, hn⟩ := exists_node?_of_inRange (h.inRange i (.inr List.mem_cons_self))
        have htwo : n.targets.length ≤ 2 := by
          refine (List.length_filterMap_le _ _).trans ?_
          cases n <;> simp [Node.children]
        have hlt := h.length_lt hi
        simp only [if_neg hi, hn]
        refine ih (h.meet hi hn (htargets n (mem_nodes_of_node? hn))) ?_
        simp only [List.length_append, List.length_reverse, List.length_singleton]
        omega

/-- **The reachable indices are those that some way leads to.** -/
theorem exists_reachable (hroot : inRange d.size d.root)
    (htargets : ∀ n ∈ d.nodes, ∀ t ∈ n.targets, inRange d.size t) :
    ∃ R, d.reachable = .ok R ∧ ∀ i, i ∈ R ↔ ∃ way, d.Way way i := by
  have hsteps : [d.root].length + 2 * (d.size - ([] : List Int).length) ≤ 4 * d.size + 4 := by
    simp only [List.length_singleton, List.length_nil]
    omega
  obtain ⟨seen, hseen, hmem⟩ := exists_reachFrom htargets (Exploring.start hroot) hsteps
  refine ⟨ascending seen, ?_, fun i => mem_ascending.trans (hmem i)⟩
  rw [reachable, hseen]
  rfl

end Diagram

/-! ## The table lists each index once -/

namespace BoundState

theorem nodup_keys_arrive (h : (s.table.map Prod.fst).Nodup) (target : Option Int) (rs : List Int) :
    ((s.arrive target rs).table.map Prod.fst).Nodup := by
  cases target with
  | none => exact h
  | some t =>
    cases hprev : s.table.lookup t with
    | none =>
      rw [arrive_of_lookup_eq_none hprev, table_push, List.map_append]
      have hnew := List.lookup_eq_none_iff_notMem.1 hprev
      refine List.nodup_append'.2 ⟨h, List.nodup_singleton t, fun i hi hit => ?_⟩
      obtain rfl : i = t := List.mem_singleton.1 hit
      exact hnew hi
    | some previous =>
      rw [arrive_of_lookup_eq_some hprev]
      split
      · exact h
      · rwa [table_push, map_fst_map_entry]

theorem nodup_keys_visit (h : (s.table.map Prod.fst).Nodup) (i : Int) (n : Node) :
    ((s.visit i n).table.map Prod.fst).Nodup := by
  cases n with
  | leaf p => exact h
  | branch p m f => exact nodup_keys_arrive (nodup_keys_arrive h m _) f _

end BoundState

namespace Diagram

theorem nodup_keys_of_turns (h : Relation.ReflTransGen d.Turn s s')
    (hs : (s.table.map Prod.fst).Nodup) : (s'.table.map Prod.fst).Nodup := by
  induction h with
  | refl => exact hs
  | tail _ hturn ih =>
    obtain ⟨hpending, hn⟩ := hturn
    refine BoundState.nodup_keys_visit ?_ _ _
    exact ih

/-! ## The meet over all ways -/

/-- Along a way, a table that respects every edge has entries without a register that the way does
not write. -/
theorem PostFixpoint.writtenOn (hT : d.PostFixpoint T) (hway : d.Way way i) :
    ∃ entry, T.lookup i = some entry ∧ ∀ r ∈ entry, d.WrittenOn way r := by
  -- Induction on the way; its last edge is a match edge or a refute edge of a branch.
  induction hway with
  | root =>
    obtain ⟨entry, hentry, hsub⟩ := hT.root
    exact ⟨entry, hentry, fun r hr => absurd (hsub hr) List.not_mem_nil⟩
  | @step way i t n e _ hn ht ih =>
    obtain ⟨entry, hentry, hwritten⟩ := ih
    cases n with
    | leaf p => cases ht
    | branch p m f =>
      obtain ⟨hm, hf⟩ := hT.follows i entry p m f hentry hn
      rcases Node.mem_children_branch.1 ht with ⟨rfl, rfl⟩ | ⟨rfl, rfl⟩
      · obtain ⟨entry', hentry', hsub⟩ := hm t rfl
        refine ⟨entry', hentry', fun r hr => writtenOn_concat.2 ?_⟩
        rcases List.mem_append.1 (hsub hr) with hr | hr
        · exact .inl (hwritten r hr)
        · exact .inr ⟨rfl, p, some t, f, hn, Pattern.mem_writes.1 hr⟩
      · obtain ⟨entry', hentry', hsub⟩ := hf t rfl
        exact ⟨entry', hentry', fun r hr => (hwritten r (hsub hr)).append⟩

/-- What all ways to an index write, the edges respect: a way to the source of an edge becomes a
way to its target. Where no way leads, these are all registers. -/
theorem respects_writtenOn : d.Respects fun i => {r | ∀ way, d.Way way i → d.WrittenOn way r} where
  root := Set.eq_empty_of_forall_notMem fun _ hr => not_writtenOn_nil (hr [] .root)
  onMatch i p t f hn r hr := by
    by_cases hp : r ∈ p.writes
    · exact .inr hp
    · refine .inl fun way hway => ?_
      have hstep := hr _ (hway.step hn (Node.mem_children_branch.2 (.inl ⟨rfl, rfl⟩)))
      rcases writtenOn_concat.1 hstep with h | ⟨-, p', m', f', hn', hr'⟩
      · exact h
      · cases hn.symm.trans hn'
        exact absurd (Pattern.mem_writes.2 hr') hp
  onRefute i p m t hn r hr way hway := by
    have hstep := hr _ (hway.step hn (Node.mem_children_branch.2 (.inr ⟨rfl, rfl⟩)))
    rcases writtenOn_concat.1 hstep with h | ⟨he, -⟩
    · exact h
    · cases he

/-- An entry is finite, and where no way leads the registers that all ways write are not. -/
theorem exists_way_of_mem_bound (h : d.bound = .ok T) (hi : (i, entry) ∈ T) :
    ∃ way, d.Way way i := by
  by_contra hnone
  obtain ⟨r, hr⟩ := Infinite.exists_notMem_finset entry.toFinset
  refine hr (List.mem_toFinset.2 (respects_writtenOn.mem_of_bound h hi fun way hway => ?_))
  exact absurd ⟨way, hway⟩ hnone

/-- **The analysis of bound registers ends with the meet over all ways.** Wherever the root and all
targets are in range, its turns come to an end with nothing pending; the table then has an entry
for exactly the reachable indices, and at each of them the registers that are written on every way
there. -/
theorem meetOverWays_bound (hroot : inRange d.size d.root)
    (htargets : ∀ n ∈ d.nodes, ∀ t ∈ n.targets, inRange d.size t) :
    ∃ s R, Relation.ReflTransGen d.Turn d.boundStart s ∧ s.pending = [] ∧
      d.bound = .ok s.table ∧ d.reachable = .ok R ∧
      (∀ i, i ∈ s.table.map Prod.fst ↔ i ∈ R) ∧ d.MeetOverWays s.table := by
  obtain ⟨s, hturns, hnil, hinv, hbound⟩ := exists_turns_bound hroot htargets
  obtain ⟨R, hR, hmem⟩ := exists_reachable hroot htargets
  have hpost := hinv.postFixpoint hnil
  have hkeys (i : Int) : i ∈ s.table.map Prod.fst ↔ ∃ way, d.Way way i := by
    constructor
    · intro hi
      obtain ⟨⟨_, entry⟩, hentry, rfl⟩ := List.mem_map.1 hi
      exact exists_way_of_mem_bound hbound hentry
    · rintro ⟨way, hway⟩
      obtain ⟨entry, hentry, -⟩ := hpost.writtenOn hway
      exact List.isSome_lookup_iff_mem.1 (hentry ▸ rfl)
  refine ⟨s, R, hturns, hnil, hbound, hR, fun i => (hkeys i).trans (hmem i).symm, ?_⟩
  refine ⟨nodup_keys_of_turns hturns (List.nodup_singleton _), hkeys,
    fun i entry => hinv.nodup, fun i entry hentry r => ⟨fun hr way hway => ?_, fun hr => ?_⟩⟩
  · obtain ⟨entry', hentry', hwritten⟩ := hpost.writtenOn hway
    cases hentry.symm.trans hentry'
    exact hwritten r hr
  · exact respects_writtenOn.mem_of_bound hbound (List.mem_of_lookup_eq_some hentry) hr

end Diagram

namespace Reachability

/-- The diagram has ways of any length: its last branch and the one in the middle send to each
other. -/
theorem meetOverWays_diagram :
    inRange diagram.size diagram.root ∧
      (∀ n ∈ diagram.nodes, ∀ t ∈ n.targets, inRange diagram.size t) ∧
      ∃ s R, Relation.ReflTransGen diagram.Turn diagram.boundStart s ∧ s.pending = [] ∧
        diagram.bound = .ok s.table ∧ diagram.reachable = .ok R ∧
        (∀ i, i ∈ s.table.map Prod.fst ↔ i ∈ R) ∧ diagram.MeetOverWays s.table := by
  have hroot : inRange diagram.size diagram.root := by decide
  have htargets : ∀ n ∈ diagram.nodes, ∀ t ∈ n.targets, inRange diagram.size t := by decide
  exact ⟨hroot, htargets, Diagram.meetOverWays_bound hroot htargets⟩

end Reachability

end RuleDiagram
