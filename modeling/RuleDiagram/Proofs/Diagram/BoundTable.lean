import Mathlib.Algebra.BigOperators.Group.Finset.Basic
import Mathlib.Algebra.Group.Action.Defs
import Mathlib.Algebra.Order.BigOperators.Group.Finset
import RuleDiagram.Proofs.Diagram.Nodes
import RuleDiagram.Proofs.Lookup

/-!
# The table of bound registers is a post-fixpoint

The analysis of bound registers visits pending indices until none is left. An index that is not
pending has told its targets what it binds, and stays so until its entry shrinks, which makes it
pending again. Entries only shrink, so that the steps the analysis is given suffice: what it ends
with is a table that every edge of the diagram respects.

## Main definitions

* `BoundTable.Admits`: an index may be entered with some registers bound
* `Diagram.PostFixpoint`: tables that the root and every edge respect
* `Diagram.Turn`: a turn of the analysis

## Main results

* `BoundState.arrive_cases`: what an arrival does
* `Diagram.exists_turns_bound`: the analysis comes to an end
* `Diagram.exists_bound_postFixpoint`: the analysis ends with a table that every edge respects
-/

namespace RuleDiagram

variable {d : Diagram} {T T' : BoundTable} {s s' : BoundState} {i t : Int} {rs live : List Int}

/-- The index may be entered with the registers bound: it has an entry, and they hold all of it. -/
def BoundTable.Admits (T : BoundTable) (i : Int) (live : List Int) : Prop :=
  ∃ entry, T.lookup i = some entry ∧ entry ⊆ live

/-- The edges of an index lead to indices that may be entered with what they bind: the match edge
with the entry and the registers written, the refute edge with the entry. -/
def Diagram.Follows (d : Diagram) (T : BoundTable) (i : Int) : Prop :=
  ∀ entry p m f, T.lookup i = some entry → d.node? i = some (.branch p m f) →
    (∀ t, m = some t → T.Admits t (entry ++ p.writes)) ∧ ∀ t, f = some t → T.Admits t entry

/-- **A table that the root and every edge respect.** -/
structure Diagram.PostFixpoint (d : Diagram) (T : BoundTable) : Prop where
  root : T.Admits d.root []
  follows : ∀ i, d.Follows T i

/-- Later tables have an entry wherever earlier ones have, with no register more. -/
def BoundTable.Shrinks (T T' : BoundTable) : Prop :=
  ∀ i entry, T.lookup i = some entry → ∃ entry', T'.lookup i = some entry' ∧ entry' ⊆ entry

namespace BoundTable

theorem Shrinks.refl (T : BoundTable) : T.Shrinks T :=
  fun _ entry h => ⟨entry, h, List.Subset.refl _⟩

theorem Shrinks.trans {T'' : BoundTable} (h : T.Shrinks T') (h' : T'.Shrinks T'') :
    T.Shrinks T'' := by
  intro i entry hentry
  obtain ⟨entry', hentry', hsub⟩ := h i entry hentry
  obtain ⟨entry'', hentry'', hsub'⟩ := h' i entry' hentry'
  exact ⟨entry'', hentry'', fun _ hr => hsub (hsub' hr)⟩

theorem Admits.mono (h : T.Admits i live) (hT : T.Shrinks T') (hlive : live ⊆ rs) :
    T'.Admits i rs := by
  obtain ⟨entry, hentry, hsub⟩ := h
  obtain ⟨entry', hentry', hsub'⟩ := hT i entry hentry
  exact ⟨entry', hentry', fun _ hr => hlive (hsub (hsub' hr))⟩

end BoundTable

/-- An index whose entry has not changed is still followed. -/
theorem Diagram.Follows.mono (h : d.Follows T i) (hT : T.Shrinks T')
    (hi : T'.lookup i = T.lookup i) : d.Follows T' i := by
  intro entry p m f hentry hn
  obtain ⟨hm, hf⟩ := h entry p m f (hi ▸ hentry) hn
  exact ⟨fun t ht => (hm t ht).mono hT (List.Subset.refl _),
    fun t ht => (hf t ht).mono hT (List.Subset.refl _)⟩

namespace BoundState

/-! ## Arrivals -/

@[simp] theorem table_push (s : BoundState) (i : Int) : (s.push i).table = s.table := by
  unfold push
  split <;> rfl

@[simp] theorem mem_pending_push : i ∈ (s.push t).pending ↔ i = t ∨ i ∈ s.pending := by
  unfold push
  split
  · next h => exact ⟨.inr, fun hi => hi.elim (fun hit => hit ▸ h) id⟩
  · exact List.mem_cons

theorem length_pending_push_le (s : BoundState) (t : Int) :
    (s.push t).pending.length ≤ s.pending.length + 1 := by
  unfold push
  split
  · exact Nat.le_succ _
  · exact le_rfl

theorem arrive_of_lookup_eq_none (h : s.table.lookup t = none) :
    s.arrive (some t) rs = { s with table := s.table ++ [(t, rs)] }.push t := by
  simp only [arrive, h]

theorem arrive_of_lookup_eq_some {previous : List Int} (h : s.table.lookup t = some previous) :
    s.arrive (some t) rs =
      if (previous.filter (· ∈ rs)).length = previous.length then s
      else { s with table := s.table.map fun (i, entry) =>
        if i = t then (i, previous.filter (· ∈ rs)) else (i, entry) }.push t := by
  simp only [arrive, h]

theorem lookup_append_entry (h : T.lookup t = none) :
    (T ++ [(t, rs)] : BoundTable).lookup i = if i = t then some rs else T.lookup i := by
  rw [List.lookup_append, List.lookup_cons_ite]
  split
  · next hi => rw [hi, h, Option.none_or]
  · exact Option.or_none

theorem lookup_map_entry {previous entry : List Int} (h : T.lookup t = some previous) :
    (T.map fun (i, rs) => if i = t then (i, entry) else (i, rs)).lookup i =
      if i = t then some entry else T.lookup i := by
  have hmap : (T.map fun (i, rs) => if i = t then (i, entry) else (i, rs)) =
      T.map fun x => (x.1, if x.1 = t then entry else x.2) :=
    List.map_congr_left fun x _ => by dsimp only; split <;> rfl
  rw [hmap, List.lookup_map_snd (fun i rs => if i = t then entry else rs)]
  split
  · next hi => rw [hi, h, Option.map_some]
  · exact Option.map_id'

/-- An index has got its first entry, or one that is shorter than before, and is pending. -/
structure Lowers (s s' : BoundState) (t : Int) (entry : List Int) : Prop where
  lookup : ∀ i, s'.table.lookup i = if i = t then some entry else s.table.lookup i
  mem_pending : ∀ i, i ∈ s'.pending ↔ i = t ∨ i ∈ s.pending
  length_pending : s'.pending.length ≤ s.pending.length + 1
  shorter : ∀ {previous}, s.table.lookup t = some previous →
    entry.Sublist previous ∧ entry.length < previous.length

/-- **What an arrival does**: nothing, where there is no target or its entry holds no register that
does not arrive; otherwise the target gets an entry of registers that arrive. -/
theorem arrive_cases (s : BoundState) (target : Option Int) (rs : List Int) :
    (s.arrive target rs = s ∧ ∀ t, target = some t → s.table.Admits t rs) ∨
    ∃ t entry, target = some t ∧ entry ⊆ rs ∧ s.Lowers (s.arrive target rs) t entry ∧
      (entry = rs ∨ ∃ previous, s.table.lookup t = some previous) := by
  cases target with
  | none => exact .inl ⟨rfl, fun t ht => by cases ht⟩
  | some t =>
    cases hprev : s.table.lookup t with
    | none =>
      -- The first visit: the registers that arrive are the entry.
      rw [arrive_of_lookup_eq_none hprev]
      refine .inr ⟨t, rs, rfl, List.Subset.refl _, ⟨fun i => ?_, fun i => mem_pending_push,
        length_pending_push_le _ t, fun h => ?_⟩, .inl rfl⟩
      · rw [table_push, lookup_append_entry hprev]
      · rw [hprev] at h
        cases h
    | some previous =>
      have hsub : previous.filter (· ∈ rs) ⊆ rs := fun r hr =>
        of_decide_eq_true (List.mem_filter.1 hr).2
      have hsublist : (previous.filter (· ∈ rs)).Sublist previous := List.filter_sublist
      rw [arrive_of_lookup_eq_some hprev]
      -- A later visit changes the entry only if the kept registers are fewer.
      by_cases hlen : (previous.filter (· ∈ rs)).length = previous.length
      · rw [if_pos hlen]
        refine .inl ⟨rfl, ?_⟩
        rintro _ ⟨⟩
        exact ⟨previous, hprev, hsublist.eq_of_length hlen ▸ hsub⟩
      · rw [if_neg hlen]
        refine .inr ⟨t, _, rfl, hsub, ⟨fun i => ?_, fun i => mem_pending_push,
          length_pending_push_le _ t, fun h => ?_⟩, .inr ⟨previous, hprev⟩⟩
        · rw [table_push, lookup_map_entry hprev]
        · obtain rfl := Option.some_inj.1 (hprev.symm.trans h)
          exact ⟨hsublist, lt_of_le_of_ne hsublist.length_le hlen⟩

/-! ## What all states keep -/

/-- The pending indices are in range, and entries list registers of the diagram, each once. -/
structure Fits (d : Diagram) (s : BoundState) : Prop where
  inRange : ∀ i ∈ s.pending, inRange d.size i
  nodup : ∀ {i entry}, s.table.lookup i = some entry → entry.Nodup
  subset : ∀ {i entry}, s.table.lookup i = some entry → entry ⊆ d.registers

/-- How much the entry of an index can still change: by a first visit, or by losing registers. -/
def room (d : Diagram) (s : BoundState) (i : Int) : ℕ :=
  match s.table.lookup i with
  | none => d.registers.length + 1
  | some entry => entry.length

/-- A bound on the visits to come: the pending indices, and those that changes make pending. -/
def visitsLeft (d : Diagram) (s : BoundState) : ℕ :=
  s.pending.length + ∑ place ∈ Finset.range d.size, s.room d place

/-- One state leads to another: entries have only shrunk, each index whose entry has changed is
pending, and no more visits are left than before. -/
structure Leads (d : Diagram) (s s' : BoundState) : Prop where
  shrinks : s.table.Shrinks s'.table
  pending_subset : s.pending ⊆ s'.pending
  unchanged : ∀ i, i ∉ s'.pending → s'.table.lookup i = s.table.lookup i
  visitsLeft_le : s'.visitsLeft d ≤ s.visitsLeft d

theorem Leads.refl (d : Diagram) (s : BoundState) : s.Leads d s :=
  ⟨.refl _, List.Subset.refl _, fun _ _ => rfl, le_rfl⟩

theorem Leads.trans {s'' : BoundState} (h : s.Leads d s') (h' : s'.Leads d s'') :
    s.Leads d s'' where
  shrinks := h.shrinks.trans h'.shrinks
  pending_subset := fun _ hi => h'.pending_subset (h.pending_subset hi)
  unchanged i hi := by rw [h'.unchanged i hi, h.unchanged i fun hi' => hi (h'.pending_subset hi')]
  visitsLeft_le := h'.visitsLeft_le.trans h.visitsLeft_le

namespace Lowers

variable {entry : List Int}

theorem shrinks (h : s.Lowers s' t entry) : s.table.Shrinks s'.table := by
  intro i old hold
  rw [h.lookup]
  split
  · next hi =>
    subst hi
    exact ⟨entry, rfl, (h.shorter hold).1.subset⟩
  · exact ⟨old, hold, List.Subset.refl _⟩

/-- The room that is lost makes up for the index that has become pending. -/
theorem visitsLeft_le (h : s.Lowers s' t entry) (ht : RuleDiagram.inRange d.size t)
    (hlen : entry.length ≤ d.registers.length) : s'.visitsLeft d ≤ s.visitsLeft d := by
  obtain ⟨hnonneg, hlt⟩ := inRange_iff.1 ht
  have hroom (i : Int) (hi : i ≠ t) : s'.room d i = s.room d i := by
    rw [room, room, h.lookup, if_neg hi]
  have hless : s'.room d t < s.room d t := by
    rw [room, room, h.lookup, if_pos rfl]
    cases hprev : s.table.lookup t with
    | none => exact Nat.lt_succ_of_le hlen
    | some previous => exact (h.shorter hprev).2
  -- All rooms stay as they are but that of the index, which is in range and loses some.
  have hsum : ∑ place ∈ Finset.range d.size, s'.room d place <
      ∑ place ∈ Finset.range d.size, s.room d place := by
    refine Finset.sum_lt_sum (fun place _ => ?_) ⟨t.toNat, ?_, ?_⟩
    · by_cases hi : (place : Int) = t
      · exact hi ▸ hless.le
      · exact (hroom place hi).le
    · exact Finset.mem_range.2 (by omega)
    · rwa [Int.toNat_of_nonneg hnonneg]
  have hpending := h.length_pending
  simp only [visitsLeft]
  omega

theorem leads (h : s.Lowers s' t entry) (ht : RuleDiagram.inRange d.size t)
    (hlen : entry.length ≤ d.registers.length) : s.Leads d s' where
  shrinks := h.shrinks
  pending_subset := fun i hi => (h.mem_pending i).2 (.inr hi)
  unchanged i hi := by
    rw [h.lookup, if_neg fun hit => hi ((h.mem_pending i).2 (.inl hit))]
  visitsLeft_le := h.visitsLeft_le ht hlen

theorem fits (h : s.Lowers s' t entry) (hs : s.Fits d) (ht : RuleDiagram.inRange d.size t)
    (hnodup : entry.Nodup) (hsub : entry ⊆ d.registers) : s'.Fits d where
  inRange i hi := by
    rcases (h.mem_pending i).1 hi with rfl | hi
    · exact ht
    · exact hs.inRange i hi
  nodup {i e} he := by
    rw [h.lookup] at he
    split at he
    · exact Option.some_inj.1 he ▸ hnodup
    · exact hs.nodup he
  subset {i e} he := by
    rw [h.lookup] at he
    split at he
    · exact Option.some_inj.1 he ▸ hsub
    · exact hs.subset he

end Lowers

/-- An arrival leaves its target with an entry that the arriving registers hold. -/
theorem arrive_leads (hs : s.Fits d) {target : Option Int}
    (ht : ∀ t, target = some t → RuleDiagram.inRange d.size t) (hnodup : rs.Nodup)
    (hsub : rs ⊆ d.registers) :
    (s.arrive target rs).Fits d ∧ s.Leads d (s.arrive target rs) ∧
      ∀ t, target = some t → (s.arrive target rs).table.Admits t rs := by
  rcases s.arrive_cases target rs with ⟨heq, hadmits⟩ | ⟨t, entry, rfl, hentry, hlowers, hnew⟩
  · rw [heq]
    exact ⟨hs, Leads.refl d s, hadmits⟩
  · have hentryNodup : entry.Nodup := by
      rcases hnew with rfl | ⟨previous, hprev⟩
      · exact hnodup
      · exact (hlowers.shorter hprev).1.nodup (hs.nodup hprev)
    have hentrySub : entry ⊆ d.registers := fun r hr => hsub (hentry hr)
    have hlen : entry.length ≤ d.registers.length :=
      (hentryNodup.subperm hentrySub).length_le
    refine ⟨hlowers.fits hs (ht t rfl) hentryNodup hentrySub, hlowers.leads (ht t rfl) hlen, ?_⟩
    rintro _ ⟨⟩
    exact ⟨entry, (hlowers.lookup t).trans (if_pos rfl), hentry⟩

/-! ## Visits -/

/-- **What a visit does**: it leads on, and the targets of the node have entries that its entry and
what it writes hold. -/
theorem visit_leads {n : Node} (hs : s.Fits d) (hn : d.node? i = some n)
    (htargets : ∀ t ∈ n.targets, RuleDiagram.inRange d.size t) :
    (s.visit i n).Fits d ∧ s.Leads d (s.visit i n) ∧
      ∀ entry p m f, s.table.lookup i = some entry → n = .branch p m f →
        (∀ t, m = some t → (s.visit i n).table.Admits t (entry ++ p.writes)) ∧
          ∀ t, f = some t → (s.visit i n).table.Admits t entry := by
  cases n with
  | leaf p => exact ⟨hs, Leads.refl d s, fun _ _ _ _ _ h => by cases h⟩
  | branch p m f =>
    let entry := (s.table.lookup i).getD []
    have hentry : entry.Nodup ∧ entry ⊆ d.registers := by
      cases he : s.table.lookup i with
      | none => simp [entry, he]
      | some e => simpa [entry, he] using ⟨hs.nodup he, hs.subset he⟩
    have hlive : ascending (entry ++ p.writes) ⊆ d.registers := by
      intro r hr
      rcases List.mem_append.1 (mem_ascending.1 hr) with hr | hr
      · exact hentry.2 hr
      · exact Diagram.mem_registers_of_writes hn hr
    have hm : ∀ t, m = some t → RuleDiagram.inRange d.size t := by
      rintro t rfl
      exact htargets t (by simp [Node.targets, Node.children])
    have hf : ∀ t, f = some t → RuleDiagram.inRange d.size t := by
      rintro t rfl
      exact htargets t (by cases m <;> simp [Node.targets, Node.children])
    -- The match edge is told first, and what it was told holds after the refute edge is told too.
    obtain ⟨hfits, hleads, hadmits⟩ := arrive_leads hs hm (nodup_ascending _) hlive
    obtain ⟨hfits', hleads', hadmits'⟩ := arrive_leads hfits hf hentry.1 hentry.2
    refine ⟨hfits', hleads.trans hleads', ?_⟩
    rintro e p' m' f' he ⟨⟩
    obtain rfl : entry = e := by simp [entry, he]
    exact ⟨fun t ht => (hadmits t ht).mono hleads'.shrinks fun r hr => mem_ascending.1 hr, hadmits'⟩

/-- What the analysis keeps: the root may be entered with nothing bound, and the edges of all
indices that are not pending are respected. -/
structure Inv (d : Diagram) (s : BoundState) : Prop extends s.Fits d where
  root : s.table.Admits d.root []
  follows : ∀ i, i ∉ s.pending → d.Follows s.table i

/-- Where nothing is pending, all edges are respected. -/
theorem Inv.postFixpoint (h : s.Inv d) (hnil : s.pending = []) : d.PostFixpoint s.table :=
  ⟨h.root, fun i => h.follows i (hnil ▸ List.not_mem_nil)⟩

theorem Inv.visit {n : Node} {pending : List Int} (h : s.Inv d) (hs : s.pending = i :: pending)
    (hn : d.node? i = some n) (htargets : ∀ t ∈ n.targets, RuleDiagram.inRange d.size t) :
    ({ s with pending := pending }.visit i n).Inv d ∧
      ({ s with pending := pending }.visit i n).visitsLeft d < s.visitsLeft d := by
  have hpopped : { s with pending := pending }.Fits d :=
    ⟨fun j hj => h.inRange j (hs ▸ List.mem_cons_of_mem i hj), h.nodup, h.subset⟩
  obtain ⟨hfits, hleads, hadmits⟩ := visit_leads hpopped hn htargets
  refine ⟨⟨hfits, h.root.mono hleads.shrinks (List.Subset.refl _), fun j hj => ?_⟩, ?_⟩
  · have hsame := hleads.unchanged j hj
    by_cases hji : j = i
    · -- The visited index: its entry is what its targets were told, or it would be pending again.
      subst hji
      intro entry p m f hentry hn'
      exact hadmits entry p m f (hsame ▸ hentry) (Option.some_inj.1 (hn.symm.trans hn'))
    · -- Any other index was not pending before, and its entry has not changed.
      refine (h.follows j fun hj' => ?_).mono hleads.shrinks hsame
      rcases List.mem_cons.1 (hs ▸ hj') with hj' | hj'
      · exact hji hj'
      · exact hj (hleads.pending_subset hj')
  · refine hleads.visitsLeft_le.trans_lt ?_
    simp only [visitsLeft, hs, List.length_cons, room]
    omega

end BoundState

namespace Diagram

/-- The state in which the analysis starts: the root is pending, with nothing bound. -/
def boundStart (d : Diagram) : BoundState := ⟨[(d.root, [])], [d.root]⟩

/-- A turn of the analysis: it visits the latest of the pending indices. -/
inductive Turn (d : Diagram) : BoundState → BoundState → Prop where
  | visit {s : BoundState} {i : Int} {pending : List Int} {n : Node}
      (hpending : s.pending = i :: pending) (hn : d.node? i = some n) :
      d.Turn s ({ s with pending := pending }.visit i n)

/-- With as many steps as visits are left, the turns come to an end: nothing is pending. -/
theorem exists_turns {steps : ℕ}
    (htargets : ∀ n ∈ d.nodes, ∀ t ∈ n.targets, inRange d.size t) (hs : s.Inv d)
    (hsteps : s.visitsLeft d ≤ steps) :
    ∃ s', Relation.ReflTransGen d.Turn s s' ∧ s'.pending = [] ∧ s'.Inv d ∧
      d.boundFrom steps s = .ok s'.table := by
  -- Induction on the steps, which bound the visits left.
  induction steps generalizing s with
  | zero =>
    have hnil : s.pending = [] := by
      refine List.eq_nil_of_length_eq_zero ?_
      simp only [BoundState.visitsLeft] at hsteps
      omega
    exact ⟨s, .refl, hnil, hs, rfl⟩
  | succ steps ih =>
    unfold boundFrom
    cases hpending : s.pending with
    | nil => exact ⟨s, .refl, hpending, hs, rfl⟩
    | cons i pending =>
      obtain ⟨n, hn⟩ := exists_node?_of_inRange (hs.inRange i (hpending ▸ List.mem_cons_self))
      obtain ⟨hinv, hless⟩ := hs.visit hpending hn (htargets n (mem_nodes_of_node? hn))
      obtain ⟨s', hturns, hnil, hinv', hok⟩ := ih hinv (by omega)
      simp only [hn]
      exact ⟨s', .head (.visit hpending hn) hturns, hnil, hinv', hok⟩

theorem inv_start (hroot : inRange d.size d.root) : d.boundStart.Inv d where
  inRange i hi := List.mem_singleton.1 hi ▸ hroot
  nodup {i entry} h := by
    obtain ⟨-, rfl⟩ := Prod.mk.inj (List.mem_singleton.1 (List.mem_of_lookup_eq_some h))
    exact List.nodup_nil
  subset {i entry} h := by
    obtain ⟨-, rfl⟩ := Prod.mk.inj (List.mem_singleton.1 (List.mem_of_lookup_eq_some h))
    exact List.nil_subset _
  root := ⟨[], by simp [boundStart, List.lookup_cons_ite], List.Subset.refl _⟩
  follows i hi entry p m f h := by
    obtain ⟨rfl, -⟩ := Prod.mk.inj (List.mem_singleton.1 (List.mem_of_lookup_eq_some h))
    exact absurd (List.mem_singleton.2 rfl) hi

theorem visitsLeft_start_le : d.boundStart.visitsLeft d ≤
    (2 * d.size + 1) * (d.registers.length + 2) + 1 := by
  have hroom (i : Int) : d.boundStart.room d i ≤ d.registers.length + 1 := by
    unfold BoundState.room
    split
    · exact le_rfl
    · next entry h =>
      obtain ⟨-, rfl⟩ := Prod.mk.inj (List.mem_singleton.1 (List.mem_of_lookup_eq_some h))
      exact Nat.zero_le _
  have hsum := Finset.sum_le_card_nsmul (Finset.range d.size)
    (fun place => d.boundStart.room d place) _ fun place _ => hroom place
  rw [Finset.card_range, smul_eq_mul] at hsum
  have hle : d.size * (d.registers.length + 1) ≤ (2 * d.size + 1) * (d.registers.length + 2) :=
    Nat.mul_le_mul (by omega) (by omega)
  have hone : d.boundStart.pending.length = 1 := rfl
  simp only [BoundState.visitsLeft, hone]
  omega

/-- **The analysis of bound registers comes to an end**, wherever the root and all targets are in
range. -/
theorem exists_turns_bound (hroot : inRange d.size d.root)
    (htargets : ∀ n ∈ d.nodes, ∀ t ∈ n.targets, inRange d.size t) :
    ∃ s, Relation.ReflTransGen d.Turn d.boundStart s ∧ s.pending = [] ∧ s.Inv d ∧
      d.bound = .ok s.table :=
  exists_turns htargets (inv_start hroot) visitsLeft_start_le

/-- **It ends with a table that every edge respects.** -/
theorem exists_bound_postFixpoint (hroot : inRange d.size d.root)
    (htargets : ∀ n ∈ d.nodes, ∀ t ∈ n.targets, inRange d.size t) :
    ∃ T, d.bound = .ok T ∧ d.PostFixpoint T := by
  obtain ⟨s, -, hnil, hinv, hok⟩ := exists_turns_bound hroot htargets
  exact ⟨s.table, hok, hinv.postFixpoint hnil⟩

end Diagram

end RuleDiagram
