import RuleDiagram.Snapshot
import RuleDiagram.Proofs.Lookup
import RuleDiagram.Proofs.Sameness

/-!
# What snapshots hold

A snapshot is determined by the values of its registers, and two snapshots are the same when their
registers hold the same values. Binding a register changes, up to sameness, that register alone.

## Main definitions

* `Snapshot.Binds`: a register is bound

## Main results

* `Snapshot.ext_get?`, `Snapshot.same_iff_get?`: equality and sameness, register by register
* `Snapshot.same_get?_bind`: the registers after a binding
* `Snapshot.same_bind`: binding respects sameness
-/

namespace RuleDiagram

variable {r r' : Int} {v w : Value}

theorem lookup_insertBinding (bs : List (Int × Value)) :
    (insertBinding r v bs).lookup r' = if r' = r then some v else bs.lookup r' := by
  induction bs with
  | nil => rw [insertBinding, List.lookup_cons_ite]
  | cons b rest ih =>
    obtain ⟨s, w⟩ := b
    unfold insertBinding
    split
    · rw [List.lookup_cons_ite]
    · split
      · next heq =>
        subst heq
        simp only [List.lookup_cons_ite]
        split <;> rfl
      · next heq =>
        rw [List.lookup_cons_ite, List.lookup_cons_ite, ih]
        by_cases hr : r' = r
        · rw [if_pos hr, if_pos hr, if_neg fun h : r' = s => heq (hr.symm.trans h)]
        · rw [if_neg hr, if_neg hr]

/-- Ascending bindings in which every register is found with the same value are equal. -/
theorem eq_of_lookup_eq :
    ∀ {xs ys : List (Int × Value)}, (xs.map Prod.fst).Pairwise (· < ·) →
      (ys.map Prod.fst).Pairwise (· < ·) → (∀ r, xs.lookup r = ys.lookup r) → xs = ys
  | [], [], _, _, _ => rfl
  | [], y :: ys, _, _, h => by simpa [List.lookup_cons_ite] using h y.1
  | x :: xs, [], _, _, h => by simpa [List.lookup_cons_ite] using h x.1
  | x :: xs, y :: ys, hx, hy, h => by
    rw [List.map_cons, List.pairwise_cons] at hx hy
    have mem_of_ne {a b : Int × Value} {as bs : List (Int × Value)}
        (hab : (a :: as).lookup a.1 = (b :: bs).lookup a.1) (hne : a.1 ≠ b.1) :
        a.1 ∈ bs.map Prod.fst := by
      rw [List.lookup_cons_ite, List.lookup_cons_ite, if_pos rfl, if_neg hne] at hab
      rw [← List.isSome_lookup_iff_mem, ← hab, Option.isSome_some]
    -- A head that differs would stand in the other tail, and so be greater and smaller at once.
    have hfst : x.1 = y.1 := by
      by_contra hne
      have hxy := hy.1 _ (mem_of_ne (h x.1) hne)
      have hyx := hx.1 _ (mem_of_ne (h y.1).symm (Ne.symm hne))
      omega
    have hsnd : x.2 = y.2 := by simpa [List.lookup_cons_ite, hfst] using h x.1
    have htail : xs = ys := by
      refine eq_of_lookup_eq hx.2 hy.2 fun r => ?_
      by_cases hr : r = x.1
      · have hxs : r ∉ xs.map Prod.fst := fun hm => by have := hx.1 r hm; omega
        have hys : r ∉ ys.map Prod.fst := fun hm => by have := hy.1 r hm; omega
        rw [List.lookup_eq_none_iff_notMem.2 hxs, List.lookup_eq_none_iff_notMem.2 hys]
      · have hhead := h r
        rwa [List.lookup_cons_ite, List.lookup_cons_ite, if_neg hr, if_neg (hfst ▸ hr)] at hhead
    rw [Prod.ext hfst hsnd, htail]

namespace Snapshot

variable {s t : Snapshot}

theorem ext_get? (h : ∀ r, s.get? r = t.get? r) : s = t := by
  obtain ⟨xs, hxs⟩ := s
  obtain ⟨ys, hys⟩ := t
  obtain rfl : xs = ys := eq_of_lookup_eq hxs hys h
  rfl

@[simp] theorem get?_empty (r : Int) : empty.get? r = none := rfl

@[simp] theorem get?_canonical (s : Snapshot) (r : Int) :
    (canonical s).get? r = canonical (s.get? r) :=
  List.lookup_map_snd (fun _ => canonical) s.bindings r

@[simp] theorem get?_set (s : Snapshot) (r : Int) (v : Value) (r' : Int) :
    (s.set r v).get? r' = if r' = r then some v else s.get? r' :=
  lookup_insertBinding s.bindings

/-- Two snapshots are the same when all registers hold the same values. -/
theorem same_iff_get? : Same s t ↔ ∀ r, Same (s.get? r) (t.get? r) := by
  refine ⟨fun h r => ?_, fun h => ext_get? fun r => ?_⟩
  · show canonical (s.get? r) = canonical (t.get? r)
    rw [← get?_canonical, ← get?_canonical, show canonical s = canonical t from h]
  · rw [get?_canonical, get?_canonical]
    exact h r

theorem holds_iff : s.holds r v ↔ Same (s.get? r) (some v) := by
  unfold holds
  cases s.get? r with
  | none => simp
  | some w => simp

theorem holds_congr (hst : Same s t) (hvw : Same v w) : s.holds r v = t.holds r w := by
  rw [Bool.eq_iff_iff, holds_iff, holds_iff]
  have hsome : Same (some v) (some w) := congrArg some hvw
  rw [same_congr_left (same_iff_get?.1 hst r), same_congr_right hsome]

/-- After a binding, the bound register holds the value and all others hold what they held. -/
theorem same_get?_bind (s : Snapshot) (r : Int) (v : Value) (r' : Int) :
    Same ((s.bind r v).get? r') (if r' = r then some v else s.get? r') := by
  unfold bind
  split
  · next h =>
    split
    · next hr => exact hr ▸ holds_iff.1 h
    · exact Same.refl _
  · rw [get?_set]

theorem get?_bind_of_ne (h : r' ≠ r) : (s.bind r v).get? r' = s.get? r' := by
  unfold bind
  split
  · rfl
  · rw [get?_set, if_neg h]

theorem same_bind (hst : Same s t) (hvw : Same v w) : Same (s.bind r v) (t.bind r w) := by
  rw [same_iff_get?]
  intro r'
  refine (same_get?_bind s r v r').trans (Same.trans ?_ (same_get?_bind t r w r').symm)
  split
  · exact congrArg some hvw
  · exact same_iff_get?.1 hst r'

/-- A register that holds a value holds no others. -/
theorem holds_iff_of_holds (h : s.holds r v) : s.holds r w ↔ Same v w := by
  rw [holds_iff, same_congr_left (holds_iff.1 h), same_some_iff]

theorem exists_get?_of_holds (h : s.holds r v) : ∃ w, s.get? r = some w ∧ Same w v := by
  rw [holds_iff] at h
  cases hr : s.get? r with
  | none => exact absurd (hr ▸ h) not_same_none_some
  | some w => exact ⟨w, rfl, same_some_iff.1 (hr ▸ h)⟩

theorem holds_bind_self : (s.bind r v).holds r v := by
  rw [holds_iff]
  simpa using same_get?_bind s r v r

theorem holds_bind_of_ne (h : r' ≠ r) : (s.bind r v).holds r' w = s.holds r' w := by
  rw [holds, holds, get?_bind_of_ne h]

/-! ## Bound registers -/

/-- The register is bound. -/
def Binds (s : Snapshot) (r : Int) : Prop := (s.get? r).isSome

instance (s : Snapshot) (r : Int) : Decidable (s.Binds r) :=
  inferInstanceAs (Decidable ((s.get? r).isSome = true))

theorem binds_iff : s.Binds r ↔ ∃ v, s.get? r = some v := Option.isSome_iff_exists

theorem binds_congr (h : Same s t) : s.Binds r ↔ t.Binds r := by
  rw [Binds, Binds, isSome_eq_of_same (same_iff_get?.1 h r)]

@[simp] theorem binds_bind : (s.bind r v).Binds r' ↔ r' = r ∨ s.Binds r' := by
  rw [Binds, isSome_eq_of_same (same_get?_bind s r v r'), Binds]
  split
  · next hr => simp [hr]
  · next hr => simp [hr]

end Snapshot

end RuleDiagram
