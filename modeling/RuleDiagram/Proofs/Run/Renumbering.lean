import Mathlib.Data.Set.Function
import RuleDiagram.Proofs.Diagram.Nodes
import RuleDiagram.Proofs.Run.NodeTable

/-!
# Renumbered diagrams run in lockstep

An evaluation uses an index for nothing but to look up a node or the set kept for it. So if the
nodes of one diagram are those of another under other indices, the two run in lockstep: visit by
visit corresponding nodes take the same snapshots and send the same on. At the end the one
evaluation is the other with its tables renumbered, down to the order of all entries, and where the
one fails the other fails for the same reason.

Indices that no snapshot comes to do not matter. The correspondence is asked for on a set of indices
that holds the root and that no edge leaves.

## Main definitions

* `NodeTable.Renumbered`, `Evaluation.Renumbered`: tables and evaluations under other indices
* `Diagram.Renumbered`: a diagram is another one under other indices
* `EndsAlike`: two runs end with results that correspond, or with the same fault

## Main results

* `Round.Renumbered.visit`: corresponding nodes do the same
* `Diagram.Renumbered.evaluate`: the evaluations of renumbered diagrams end alike
-/

namespace RuleDiagram

variable {f : Int → Int} {P : Set Int} {i : Int}

/-! ## Tables -/

namespace NodeTable

variable {α : Type} {t t' u u' : NodeTable α} {xs : List α}

/-- **A table renumbered**: the same sets in the same order, kept for other nodes. The indices
before are of a given set. -/
structure Renumbered (f : Int → Int) (P : Set Int) (t t' : NodeTable α) : Prop where
  entries : t'.entries = t.entries.map fun x => (f x.1, x.2)
  within : ∀ i ∈ t.indices, i ∈ P

theorem Renumbered.indices (h : t.Renumbered f P t') : t'.indices = t.indices.map f := by
  simp [NodeTable.indices, h.entries, Function.comp_def]

theorem Renumbered.fst_mem (h : t.Renumbered f P t') {x : Int × List α} (hx : x ∈ t.entries) :
    x.1 ∈ P :=
  h.within x.1 (List.mem_map_of_mem hx)

/-- The sets of a renumbered table have the same union. -/
theorem Renumbered.union_eq [Canonical α] [DecidableEq α] (h : t.Renumbered f P t') :
    t'.union = t.union := by
  rw [union, union, h.entries, List.foldl_map]

theorem renumbered_empty : (empty : NodeTable α).Renumbered f P empty where
  entries := rfl
  within := List.forall_mem_nil _

theorem renumbered_single (hi : i ∈ P) : (single i xs).Renumbered f P (single (f i) xs) where
  entries := rfl
  within j hj := by
    rw [mem_indices_single] at hj
    exact hj ▸ hi

namespace Renumbered

variable (hf : Set.InjOn f P)
include hf

theorem mem_indices_iff (h : t.Renumbered f P t') (hi : i ∈ P) :
    f i ∈ t'.indices ↔ i ∈ t.indices := by
  rw [h.indices, List.mem_map]
  constructor
  · rintro ⟨j, hj, hji⟩
    exact hf (h.within j hj) hi hji ▸ hj
  · exact fun hmem => ⟨i, hmem, rfl⟩

/-- What is kept for a node is kept for the node that corresponds to it. -/
theorem get_eq (h : t.Renumbered f P t') (hi : i ∈ P) : t'.get (f i) = t.get i := by
  by_cases hmem : i ∈ t.indices
  · refine get_eq_of_mem ?_
    rw [h.entries]
    exact List.mem_map_of_mem (f := fun x => (f x.1, x.2)) (mem_entries_get hmem)
  · rw [get_eq_nil_of_notMem hmem, get_eq_nil_of_notMem (mt (h.mem_indices_iff hf hi).1 hmem)]

variable [Canonical α] [DecidableEq α]

theorem add (h : t.Renumbered f P t') (hi : i ∈ P) :
    (t.add i xs).Renumbered f P (t'.add (f i) xs) where
  entries := by
    by_cases hmem : i ∈ t.indices
    · rw [entries_add_of_mem ((h.mem_indices_iff hf hi).2 hmem), entries_add_of_mem hmem,
        h.entries, List.map_map, List.map_map]
      refine List.map_congr_left fun x hx => ?_
      have hsame : f x.1 = f i ↔ x.1 = i := hf.eq_iff (h.fst_mem hx) hi
      simp only [Function.comp_apply, hsame]
    · rw [entries_add_of_notMem (mt (h.mem_indices_iff hf hi).1 hmem),
        entries_add_of_notMem hmem, h.entries, List.map_append, List.map_singleton]
  within j hj := by
    rcases mem_indices_add.1 hj with rfl | hj
    · exact hi
    · exact h.within j hj

theorem addAll (h : t.Renumbered f P t') (hu : u.Renumbered f P u') :
    (t.addAll u).Renumbered f P (t'.addAll u') := by
  have hfold (es : List (Int × List α)) (hes : ∀ x ∈ es, x.1 ∈ P) (t t' : NodeTable α)
      (h : t.Renumbered f P t') : (es.foldl (fun t x => t.add x.1 x.2) t).Renumbered f P
        ((es.map fun x => (f x.1, x.2)).foldl (fun t x => t.add x.1 x.2) t') := by
    induction es generalizing t t' with
    | nil => exact h
    | cons x es ih =>
      obtain ⟨hx, hes⟩ := List.forall_mem_cons.1 hes
      exact ih hes _ _ (h.add hf hx)
  have hresult := hfold u.entries (fun x hx => hu.fst_mem hx) t t' h
  rw [← hu.entries] at hresult
  exact hresult

theorem diff (h : t.Renumbered f P t') (hu : u.Renumbered f P u') :
    (t.diff u).Renumbered f P (t'.diff u') where
  entries := by
    have hget : ∀ x ∈ t.entries, u'.get (f x.1) = u.get x.1 :=
      fun x hx => hu.get_eq hf (h.fst_mem hx)
    simp only [NodeTable.diff, h.entries, List.map_map, List.filter_map, Function.comp_def]
    rw [List.filter_congr fun x hx => by rw [hget x hx]]
    exact List.map_congr_left fun x hx => by rw [hget x (List.mem_of_mem_filter hx)]
  within i hi := by
    obtain ⟨xs, hxs⟩ := mem_indices.1 hi
    obtain ⟨ys, hys, -⟩ := mem_entries_diff.1 hxs
    exact h.fst_mem hys

end Renumbered

section Snapshots

variable {t t' : NodeTable Snapshot} {target : Option Int} {xs : List Snapshot}

theorem Renumbered.send (hf : Set.InjOn f P) (h : t.Renumbered f P t')
    (htarget : ∀ i, target = some i → i ∈ P) :
    (t.send target xs).Renumbered f P (t'.send (target.map f) xs) := by
  cases target with
  | none => exact h
  | some i =>
    rw [Option.map_some, NodeTable.send, NodeTable.send]
    split
    · exact h
    · exact h.add hf (htarget i rfl)

end Snapshots

end NodeTable

/-! ## Evaluations -/

/-- **An evaluation renumbered**: the tables are those before under other indices, and all else is
as it was. -/
structure Evaluation.Renumbered (f : Int → Int) (P : Set Int) (e e' : Evaluation) : Prop where
  facts : e'.facts = e.facts
  incoming : e.incoming.Renumbered f P e'.incoming
  matched : e.matched.Renumbered f P e'.matched
  refuted : e.refuted.Renumbered f P e'.refuted
  emitted : e.emitted.Renumbered f P e'.emitted
  rounds : e'.rounds = e.rounds

theorem Evaluation.Renumbered.outputs_eq {e e' : Evaluation} (h : e.Renumbered f P e') :
    e'.outputs = e.outputs :=
  h.emitted.union_eq

/-- A round under way, under other indices. -/
structure Round.Renumbered (f : Int → Int) (P : Set Int) (r r' : Round) : Prop where
  evaluation : r.evaluation.Renumbered f P r'.evaluation
  sent : r.sent.Renumbered f P r'.sent

/-- A fault with its index renumbered, if it names one. -/
def RunFault.renumber (f : Int → Int) : RunFault → RunFault
  | .noSuchNode i => .noSuchNode (f i)
  | fault => fault

/-- **Two runs end alike**: with results that correspond, or with the same fault up to its index. -/
inductive EndsAlike {α : Type} (f : Int → Int) (R : α → α → Prop) :
    Except RunFault α → Except RunFault α → Prop
  | ok {a a' : α} (h : R a a') : EndsAlike f R (.ok a) (.ok a')
  | error (fault : RunFault) : EndsAlike f R (.error fault) (.error (fault.renumber f))

namespace EndsAlike

variable {α β : Type} {R : α → α → Prop} {Q : β → β → Prop} {x x' : Except RunFault α}

theorem bind {g g' : α → Except RunFault β} (hx : EndsAlike f R x x')
    (hg : ∀ a a', R a a' → EndsAlike f Q (g a) (g' a')) : EndsAlike f Q (x >>= g) (x' >>= g') := by
  cases hx with
  | ok h => exact hg _ _ h
  | error fault => exact .error fault

/-- Where the one run gives a result, so does the other. -/
theorem exists_ok {a : α} (h : EndsAlike f R x x') (hx : x = .ok a) :
    ∃ a', x' = .ok a' ∧ R a a' := by
  cases h with
  | ok h => exact Except.ok.inj hx ▸ ⟨_, rfl, h⟩
  | error fault => cases hx

theorem limitReached {limit : RoundLimit} (h : EndsAlike f R x x')
    (hx : x = .error (.limitReached limit)) : x' = .error (.limitReached limit) := by
  cases h with
  | ok h => cases hx
  | error fault =>
    obtain rfl := Except.error.inj hx
    rfl

end EndsAlike

/-! ## Diagrams -/

/-- **A diagram renumbered**, as far as a set of indices goes: the set holds the root and no edge
leaves it, its indices stay different, and the nodes of it are found at their new indices with their
targets renumbered. -/
structure Diagram.Renumbered (f : Int → Int) (P : Set Int) (d d' : Diagram) : Prop where
  injOn : Set.InjOn f P
  root_mem : d.root ∈ P
  root : d'.root = f d.root
  node : ∀ i ∈ P, d'.node? (f i) = (d.node? i).map (Node.mapTargets f)
  follow : ∀ i ∈ P, ∀ n, d.node? i = some n → ∀ t ∈ n.targets, t ∈ P

variable {d d' : Diagram}

namespace Round.Renumbered

variable {r r' : Round} (hd : d.Renumbered f P d')
include hd

/-- **Corresponding nodes do the same** with the same snapshots. -/
theorem visit (h : r.Renumbered f P r') (hi : i ∈ P) (fresh : List Snapshot) :
    EndsAlike f (Round.Renumbered f P) (r.visit d i fresh) (r'.visit d' (f i) fresh) := by
  have hnode := hd.node i hi
  unfold Round.visit
  rw [hnode]
  cases hn : d.node? i with
  | none => exact .error _
  | some n =>
    cases n with
    | leaf p =>
      rw [Option.map_some, Node.mapTargets]
      dsimp only
      -- What the template gives does not depend on the index, and neither does its fault.
      cases (fresh.mapM fun s => instantiate p s) with
      | error fault => exact .error (.emission fault)
      | ok facts =>
        exact .ok ⟨{ h.evaluation with emitted := h.evaluation.emitted.add hd.injOn hi }, h.sent⟩
    | branch p a b =>
      rw [Option.map_some, Node.mapTargets]
      dsimp only
      have hfollow := hd.follow i hi _ hn
      rw [h.evaluation.facts]
      refine .ok ⟨{ h.evaluation with
        facts := rfl
        matched := h.evaluation.matched.add hd.injOn hi
        refuted := h.evaluation.refuted.add hd.injOn hi }, ?_⟩
      refine (h.sent.send hd.injOn fun t ht => ?_).send hd.injOn fun t ht => ?_
      · exact hfollow t (Node.mem_targets_branch.2 (.inl ht))
      · exact hfollow t (Node.mem_targets_branch.2 (.inr ht))

theorem news (h : r.Renumbered f P r') : r.news.Renumbered f P r'.news :=
  h.sent.diff hd.injOn h.evaluation.incoming

theorem close (h : r.Renumbered f P r') : r.close.Renumbered f P r'.close :=
  { h.evaluation with
    incoming := h.evaluation.incoming.addAll hd.injOn (h.news hd)
    rounds := congrArg (· + 1) h.evaluation.rounds }

end Round.Renumbered

namespace Evaluation.Renumbered

variable {e e' : Evaluation} {news news' : NodeTable Snapshot} {limit : RoundLimit}
  (hd : d.Renumbered f P d')
include hd

theorem start (facts : List Fact) :
    (Evaluation.start d facts).Renumbered f P (Evaluation.start d' facts) where
  facts := rfl
  incoming := by
    rw [Evaluation.start, Evaluation.start, hd.root]
    exact NodeTable.renumbered_single hd.root_mem
  matched := NodeTable.renumbered_empty
  refuted := NodeTable.renumbered_empty
  emitted := NodeTable.renumbered_empty
  rounds := rfl

/-- A round of the one diagram is a round of the other. -/
theorem round (h : e.Renumbered f P e') (hnews : news.Renumbered f P news') :
    EndsAlike f (Round.Renumbered f P) (e.round d news) (e'.round d' news') := by
  have hfold (es : List (Int × List Snapshot)) (hes : ∀ x ∈ es, x.1 ∈ P) (r r' : Round)
      (h : r.Renumbered f P r') : EndsAlike f (Round.Renumbered f P)
        (es.foldlM (fun r x => r.visit d x.1 x.2) r)
        ((es.map fun x => (f x.1, x.2)).foldlM (fun r x => r.visit d' x.1 x.2) r') := by
    -- Induction on the entries: one visit after another.
    induction es generalizing r r' with
    | nil => exact .ok h
    | cons x es ih =>
      obtain ⟨hx, hes⟩ := List.forall_mem_cons.1 hes
      rw [List.map_cons, List.foldlM_cons, List.foldlM_cons]
      exact (h.visit hd hx x.2).bind fun r r' h => ih hes r r' h
  have hresult := hfold news.entries (fun x hx => hnews.fst_mem hx) ⟨e, .empty⟩ ⟨e', .empty⟩
    ⟨h, NodeTable.renumbered_empty⟩
  rw [← hnews.entries] at hresult
  exact hresult

/-- **The two run in lockstep** to the end. -/
theorem proceed (remaining : ℕ) (h : e.Renumbered f P e') (hnews : news.Renumbered f P news') :
    EndsAlike f (Evaluation.Renumbered f P) (e.proceed d limit remaining news)
      (e'.proceed d' limit remaining news') := by
  -- Induction on the rounds that remain.
  induction remaining generalizing e e' news news' with
  | zero =>
    unfold Evaluation.proceed
    rw [hnews.entries]
    cases news.entries with
    | nil => exact .ok h
    | cons x xs => exact .error (.limitReached limit)
  | succ remaining ih =>
    unfold Evaluation.proceed
    rw [hnews.entries]
    cases news.entries with
    | nil => exact .ok h
    | cons x xs =>
      exact (h.round hd hnews).bind fun r r' hr => ih (hr.close hd) (hr.news hd)

end Evaluation.Renumbered

/-- **The evaluations of renumbered diagrams end alike.** -/
theorem Diagram.Renumbered.evaluate (hd : d.Renumbered f P d') (facts : List Fact)
    (limit : RoundLimit) : EndsAlike f (Evaluation.Renumbered f P) (d.evaluate facts limit)
      (d'.evaluate facts limit) :=
  have hstart := Evaluation.Renumbered.start hd facts
  hstart.proceed hd limit.rounds hstart.incoming

end RuleDiagram
