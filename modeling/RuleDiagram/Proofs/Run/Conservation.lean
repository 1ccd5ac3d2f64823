import RuleDiagram.Proofs.Lookup
import RuleDiagram.Run.Propagation

/-!
# Deliveries are conserved

A branch need not look through all facts for each snapshot: grouped by their predicates once, the
facts of its own predicate are at hand, and it goes through the snapshots and these facts in two
loops that put one delivery at the end of one of two lists. Each turn of the inner loop delivers
once, whichever edge it takes, so a branch neither loses nor multiplies what it has to deliver.

## Main definitions

* `FactIndex`, `FactIndex.ofFacts`, `FactIndex.get`: facts grouped by their predicates
* `Delivery.add`, `Delivery.addAll`, `deliver`: one delivery, those of a snapshot, and the loops
* `Delivery.total`: how much leaves a branch, with repetitions

## Main results

* `FactIndex.get_ofFacts`: the group of a predicate holds its facts in order
* `propagate_eq_deliver`: propagation by way of groups and loops
* `Delivery.total_add`, `total_deliver`: what one turn and a whole run deliver
* `propagate_exact`: the deliveries of a branch
-/

namespace RuleDiagram

variable {p : Pattern} {q : Predicate} {facts more : List Fact} {xs ys : List Snapshot}
  {s t : Snapshot} {f : Fact}

/-! ## Groups of facts -/

/-- **Facts grouped by their predicates**, both in the order in which they came up. -/
structure FactIndex where
  groups : List (Predicate × List Fact)

namespace FactIndex

/-- Groups with one more fact. -/
def insertFact (f : Fact) : List (Predicate × List Fact) → List (Predicate × List Fact)
  | [] => [(f.predicate, [f])]
  | (q, group) :: rest =>
    if f.predicate = q then (q, group ++ [f]) :: rest else (q, group) :: insertFact f rest

def insert (index : FactIndex) (f : Fact) : FactIndex := ⟨insertFact f index.groups⟩

/-- The facts of a list, grouped. -/
def ofFacts (facts : List Fact) : FactIndex := facts.foldl insert ⟨[]⟩

/-- The group of a predicate, empty for a predicate without facts. -/
def get (index : FactIndex) (q : Predicate) : List Fact := (index.groups.lookup q).getD []

variable {index : FactIndex}

theorem lookup_insertFact (groups : List (Predicate × List Fact)) :
    (insertFact f groups).lookup q =
      if q = f.predicate then some ((groups.lookup q).getD [] ++ [f]) else groups.lookup q := by
  induction groups with
  | nil => simp [insertFact, List.lookup_cons_ite]
  | cons g rest ih =>
    obtain ⟨q', group⟩ := g
    unfold insertFact
    split
    · next heq =>
      subst heq
      simp only [List.lookup_cons_ite]
      split <;> rfl
    · next hne =>
      simp only [List.lookup_cons_ite, ih]
      by_cases hq : q = f.predicate
      · have hne' : q ≠ q' := fun h => hne (hq.symm.trans h)
        simp only [if_pos hq, if_neg hne']
      · simp only [if_neg hq]

/-- A fact goes to the end of its group. -/
theorem get_insert : (index.insert f).get q = index.get q ++ candidates q [f] := by
  rw [get, insert, lookup_insertFact]
  by_cases hq : q = f.predicate
  · simp [get, candidates, hq]
  · simp [get, candidates, hq, Ne.symm hq]

/-- **The group of a predicate holds its facts in order.** -/
theorem get_ofFacts : (ofFacts facts).get q = candidates q facts := by
  -- Over any groups, since the loop goes on from what it has.
  have key (index : FactIndex) :
      (facts.foldl insert index).get q = index.get q ++ candidates q facts := by
    induction facts generalizing index with
    | nil => simp [candidates]
    | cons f facts ih =>
      rw [List.foldl_cons, ih, get_insert, List.append_assoc, candidates, candidates, candidates,
        ← List.filter_append, List.singleton_append]
  exact key ⟨[]⟩

end FactIndex

/-! ## Loops -/

namespace Delivery

variable {out : Delivery}

@[simp] theorem append_none : out.append none = out := by
  simp [append, none]

@[simp] theorem none_append : none.append out = out := by
  simp [append, none]

theorem append_assoc (a b c : Delivery) : (a.append b).append c = a.append (b.append c) := by
  simp [append]

/-- How much leaves a branch, through both edges together. -/
def total (out : Delivery) : Nat := out.onMatch.length + out.onRefute.length

/-- One delivery more: a snapshot meets a fact. -/
def add (p : Pattern) (s : Snapshot) (out : Delivery) (f : Fact) : Delivery :=
  match unify p.terms f.values s with
  | some t => { out with onMatch := out.onMatch ++ [t] }
  | Option.none => { out with onRefute := out.onRefute ++ [s] }

/-- The deliveries of one snapshot, fact by fact. -/
def addAll (p : Pattern) (group : List Fact) (out : Delivery) (s : Snapshot) : Delivery :=
  group.foldl (add p s) out

/-- **Each turn delivers once.** -/
theorem total_add : (out.add p s f).total = out.total + 1 := by
  unfold add total
  split
  · rw [List.length_append, List.length_singleton, Nat.add_right_comm]
  · rw [List.length_append, List.length_singleton, Nat.add_assoc]

theorem eq_none_of_total (h : out.total = 0) : out = none := by
  obtain ⟨hmatch, hrefute⟩ := Nat.add_eq_zero_iff.1 h
  obtain ⟨onMatch, onRefute⟩ := out
  rw [List.length_eq_zero_iff] at hmatch hrefute
  subst hmatch hrefute
  rfl

theorem total_addAll : (out.addAll p facts s).total = out.total + facts.length := by
  unfold addAll
  induction facts generalizing out with
  | nil => rfl
  | cons f facts ih => rw [List.foldl_cons, ih, total_add, List.length_cons, Nat.add_right_comm,
      Nat.add_assoc]

/-- A turn puts at the end what the snapshot and the fact deliver by themselves. -/
theorem add_eq_append : out.add p s f = out.append (meet p [f] s) := by
  unfold add meet
  cases h : unify p.terms f.values s <;> simp [append, h]

theorem addAll_eq_append : out.addAll p facts s = out.append (meet p facts s) := by
  unfold addAll
  induction facts generalizing out with
  | nil => exact append_none.symm
  | cons f facts ih =>
    have hcons : meet p (f :: facts) s = (meet p [f] s).append (meet p facts s) := by
      cases h : unify p.terms f.values s <;> simp [meet, append, h]
    rw [List.foldl_cons, ih, add_eq_append, hcons, append_assoc]

end Delivery

open Delivery hiding none

/-- **The loops of a branch**: snapshot by snapshot, and for each snapshot fact by fact. -/
def deliver (p : Pattern) (group : List Fact) (xs : List Snapshot) : Delivery :=
  xs.foldl (addAll p group) .none

theorem foldl_addAll (group : List Fact) (out : Delivery) :
    xs.foldl (addAll p group) out = out.append (deliver p group xs) := by
  unfold deliver
  induction xs generalizing out with
  | nil => exact append_none.symm
  | cons s xs ih =>
    rw [List.foldl_cons, List.foldl_cons, ih, ih (addAll p group .none s), addAll_eq_append,
      addAll_eq_append, none_append, append_assoc]

theorem deliver_cons (group : List Fact) :
    deliver p group (s :: xs) = (meet p group s).append (deliver p group xs) := by
  rw [deliver, List.foldl_cons, foldl_addAll, addAll_eq_append, none_append]

theorem deliver_append (group : List Fact) :
    deliver p group (xs ++ ys) = (deliver p group xs).append (deliver p group ys) := by
  rw [deliver, List.foldl_append, foldl_addAll]
  rfl

/-- **A run of the loops delivers each snapshot once for each fact.** -/
theorem total_deliver (group : List Fact) :
    (deliver p group xs).total = group.length * xs.length := by
  have key (out : Delivery) :
      (xs.foldl (addAll p group) out).total = out.total + group.length * xs.length := by
    induction xs generalizing out with
    | nil => rfl
    | cons s xs ih =>
      rw [List.foldl_cons, ih, total_addAll, List.length_cons, Nat.mul_succ, Nat.add_assoc,
        Nat.add_comm group.length]
  exact (key .none).trans (Nat.zero_add _)

/-- **Propagation by way of groups and loops.** -/
theorem propagate_eq_deliver (hp : p.predicate = some q) :
    propagate p facts xs = deliver p ((FactIndex.ofFacts facts).get q) xs := by
  rw [FactIndex.get_ofFacts, propagate, hp]
  induction xs with
  | nil => rfl
  | cons s xs ih =>
    rw [deliver_cons, ← ih]
    rfl

/-! ## The deliveries of a branch -/

/-- The snapshot unifies with the fact. -/
def Pattern.unifies (p : Pattern) (s : Snapshot) (f : Fact) : Bool :=
  (unify p.terms f.values s).isSome

theorem length_onMatch_meet : (meet p facts s).onMatch.length = facts.countP (p.unifies s) :=
  List.length_filterMap_eq_countP

/-- What does not match is refuted, each time with the snapshot itself. -/
theorem onRefute_meet :
    (meet p facts s).onRefute = List.replicate (facts.length - facts.countP (p.unifies s)) s := by
  have hcount : facts.countP (fun f => (unify p.terms f.values s).isNone) +
      facts.countP (p.unifies s) = facts.length := by
    rw [facts.length_eq_countP_add_countP (p.unifies s), Nat.add_comm]
    congr 2
    funext f
    cases h : unify p.terms f.values s <;> simp [Pattern.unifies, h]
  rw [meet, List.map_const', ← List.countP_eq_length_filter, ← hcount, Nat.add_sub_cancel]

theorem deliver_singleton (group : List Fact) : deliver p group [s] = meet p group s := by
  rw [deliver_cons]
  exact append_none

/-- **The deliveries of a branch.** Let `k` of the facts be of its predicate. Then it delivers `k`
times for each snapshot; a snapshot that unifies with `m` of these facts is extended on the match
edge `m` times, in the order of the facts, and goes to the refute edge `k - m` times as it is; facts
of other predicates make no difference; and what is delivered for several snapshots is what is
delivered for each of them, one after another. A pass-through branch sends the snapshots themselves
along both edges. -/
theorem propagate_exact (p : Pattern) (facts : List Fact) (xs : List Snapshot) :
    (∀ q, p.predicate = some q →
      (propagate p facts xs).total = (candidates q facts).length * xs.length ∧
      (∀ s m, m = (candidates q facts).countP (p.unifies s) →
        (propagate p facts [s]).onMatch =
          (candidates q facts).filterMap (fun f => unify p.terms f.values s) ∧
        (propagate p facts [s]).onMatch.length = m ∧
        (propagate p facts [s]).onRefute = List.replicate ((candidates q facts).length - m) s) ∧
      (candidates q facts = [] → propagate p facts xs = .none) ∧
      ∀ more, candidates q more = candidates q facts → propagate p more xs = propagate p facts xs) ∧
    (∀ ys, propagate p facts (xs ++ ys) = (propagate p facts xs).append (propagate p facts ys)) ∧
    (p.predicate = none → ∀ facts, propagate p facts xs = ⟨xs, xs⟩) := by
  refine ⟨fun q hp => ?_, fun ys => ?_, fun hp facts => by rw [propagate, hp]⟩
  · have hdeliver (facts : List Fact) (xs : List Snapshot) :
        propagate p facts xs = deliver p (candidates q facts) xs := by
      rw [propagate_eq_deliver hp, FactIndex.get_ofFacts]
    simp only [hdeliver]
    refine ⟨total_deliver _, ?_, ?_, fun more h => by rw [h]⟩
    · rintro s m rfl
      rw [deliver_singleton]
      exact ⟨rfl, length_onMatch_meet, onRefute_meet⟩
    · intro hnone
      exact eq_none_of_total (by rw [total_deliver, hnone, List.length_nil, Nat.zero_mul])
  · cases hp : p.predicate with
    | none => simp [propagate, hp, append]
    | some q => simp only [propagate_eq_deliver hp, deliver_append]

end RuleDiagram
