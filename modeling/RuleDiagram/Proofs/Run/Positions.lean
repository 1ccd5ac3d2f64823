import RuleDiagram.Proofs.Pattern
import RuleDiagram.Proofs.Run.Unification

/-!
# Unification, position by position

Unification takes the terms of a pattern from left to right and hands a snapshot on. What it asks
at a position and what it leaves in a register can nevertheless be said of the terms and values as
they stand there: a register holds the value at the last position that writes it, and where there is
none, what it held at first. A value that a register holds already is not bound again, so all this
is up to sameness.

## Main definitions

* `LastWrite`: the last position before a given one at which a register is written
* `HeldBefore`: what a register holds in front of a position
* `Fits`: what a term asks of the value at its position
* `After`: the snapshot in front of a position

## Main results

* `After.step`: what one term does
* `unify_take`: what the terms before a position do
* `unify_exact`: when a pattern unifies with values, and the snapshot that it gives
-/

namespace RuleDiagram

open Snapshot

variable {ts : List Term} {vs : List Value} {s u : Snapshot} {t : Term} {v w : Value} {r : Int}
  {n j : Nat}

/-! ## Positions -/

/-- **The last write to a register before a position**: a free term writes it there, and none does
in between. -/
structure LastWrite (ts : List Term) (r : Int) (n j : Nat) : Prop where
  lt : j < n
  free : ts[j]? = some (.free r)
  last : ∀ k, j < k → k < n → ts[k]? ≠ some (.free r)

/-- No term before a position writes the register. -/
def Unwritten (ts : List Term) (r : Int) (n : Nat) : Prop := ∀ k < n, ts[k]? ≠ some (.free r)

/-- **A register holds a value in front of a position**: it is the same as the one at the last
position before that writes the register, or as the one in the snapshot if there is none. -/
def HeldBefore (ts : List Term) (vs : List Value) (s : Snapshot) (n : Nat) (r : Int) (v : Value) :
    Prop :=
  (∃ j w, LastWrite ts r n j ∧ vs[j]? = some w ∧ Same w v) ∨
    Unwritten ts r n ∧ ∃ w, s.get? r = some w ∧ Same w v

/-- **What a term asks of the value at its position.** -/
def Fits (ts : List Term) (vs : List Value) (s : Snapshot) (n : Nat) (v : Value) : Term → Prop
  | .constant c => Same c v
  | .reference r => HeldBefore ts vs s n r v
  | .free _ => True

theorem LastWrite.succ_self (h : ts[n]? = some (.free r)) : LastWrite ts r (n + 1) n :=
  ⟨Nat.lt_succ_self n, h, fun k hk hk' => absurd hk' (by omega)⟩

theorem lastWrite_succ_of_free (h : ts[n]? = some (.free r)) :
    LastWrite ts r (n + 1) j ↔ j = n := by
  constructor
  · intro hj
    by_contra hne
    have hlt := hj.lt
    exact hj.last n (by omega) (Nat.lt_succ_self n) h
  · rintro rfl
    exact .succ_self h

theorem lastWrite_succ_of_ne (h : ts[n]? ≠ some (.free r)) :
    LastWrite ts r (n + 1) j ↔ LastWrite ts r n j := by
  constructor
  · intro hj
    have hne : j ≠ n := fun hjn => h (hjn ▸ hj.free)
    have hlt := hj.lt
    exact ⟨by omega, hj.free, fun k hk hk' => hj.last k hk (by omega)⟩
  · intro hj
    refine ⟨Nat.lt_succ_of_lt hj.lt, hj.free, fun k hk hk' => ?_⟩
    rcases Nat.lt_succ_iff_lt_or_eq.1 hk' with hkn | rfl
    · exact hj.last k hk hkn
    · exact h

theorem unwritten_succ_iff : Unwritten ts r (n + 1) ↔ ts[n]? ≠ some (.free r) ∧ Unwritten ts r n := by
  simp only [Unwritten, Nat.lt_succ_iff_lt_or_eq, or_imp, forall_and, forall_eq, and_comm]

/-- A register that is written is written last somewhere. -/
theorem exists_lastWrite (h : ¬ Unwritten ts r n) : ∃ j, LastWrite ts r n j := by
  induction n with
  | zero => exact absurd (fun k hk => absurd hk (Nat.not_lt_zero k)) h
  | succ n ih =>
    by_cases hn : ts[n]? = some (.free r)
    · exact ⟨n, .succ_self hn⟩
    · obtain ⟨j, hj⟩ := ih fun hun => h (unwritten_succ_iff.2 ⟨hn, hun⟩)
      exact ⟨j, (lastWrite_succ_of_ne hn).2 hj⟩

theorem LastWrite.not_unwritten (h : LastWrite ts r n j) : ¬ Unwritten ts r n := fun hun =>
  hun j h.lt h.free

theorem Pattern.mem_writes_iff {p : Pattern} : r ∈ p.writes ↔ ¬ Unwritten p.terms r p.terms.length := by
  rw [mem_writes, List.mem_iff_getElem?, Unwritten]
  push Not
  constructor
  · rintro ⟨k, hk⟩
    exact ⟨k, (List.getElem?_eq_some_iff.1 hk).1, hk⟩
  · rintro ⟨k, -, hk⟩
    exact ⟨k, hk⟩

/-! ## What registers hold -/

theorem heldBefore_zero : HeldBefore ts vs s 0 r v ↔ s.holds r v := by
  constructor
  · rintro (⟨j, w, hj, -⟩ | ⟨-, w, hw, hwv⟩)
    · exact absurd hj.lt (Nat.not_lt_zero j)
    · rw [holds_iff, hw]
      exact same_some_iff.2 hwv
  · intro h
    exact .inr ⟨fun k hk => absurd hk (Nat.not_lt_zero k), exists_get?_of_holds h⟩

/-- A register that has just been written holds the value there. -/
theorem heldBefore_succ_of_free (ht : ts[n]? = some (.free r)) (hv : vs[n]? = some v) :
    HeldBefore ts vs s (n + 1) r w ↔ Same v w := by
  constructor
  · rintro (⟨j, x, hj, hx, hxw⟩ | ⟨hun, -⟩)
    · obtain rfl := (lastWrite_succ_of_free ht).1 hj
      obtain rfl : v = x := Option.some.inj (hv.symm.trans hx)
      exact hxw
    · exact absurd hun (LastWrite.succ_self ht).not_unwritten
  · exact fun h => .inl ⟨n, v, .succ_self ht, hv, h⟩

theorem heldBefore_succ_of_ne (h : ts[n]? ≠ some (.free r)) :
    HeldBefore ts vs s (n + 1) r w ↔ HeldBefore ts vs s n r w := by
  simp only [HeldBefore, lastWrite_succ_of_ne h, unwritten_succ_iff, ne_eq, h, not_false_eq_true,
    true_and]

/-! ## One term, and all of them -/

/-- **The snapshot in front of a position**: it has for each register what is held there, and what
no term has written it has as at first. -/
structure After (ts : List Term) (vs : List Value) (s : Snapshot) (n : Nat) (u : Snapshot) :
    Prop where
  holds_iff : ∀ r v, u.holds r v ↔ HeldBefore ts vs s n r v
  get?_eq : ∀ r, Unwritten ts r n → u.get? r = s.get? r

theorem After.zero : After ts vs s 0 s where
  holds_iff _ _ := heldBefore_zero.symm
  get?_eq _ _ := rfl

/-- A term that writes nothing leaves the snapshot as it is. -/
theorem After.succ (h : After ts vs s n u) (ht : ts[n]? = some t) (hwritten : t.written? = none) :
    After ts vs s (n + 1) u := by
  have hne (r : Int) : ts[n]? ≠ some (.free r) := by
    rw [ht]
    rintro ⟨⟩
    cases hwritten
  refine ⟨fun r v => ?_, fun r hr => h.get?_eq r (unwritten_succ_iff.1 hr).2⟩
  rw [h.holds_iff, heldBefore_succ_of_ne (hne r)]

/-- A free term binds its register. -/
theorem After.bind (h : After ts vs s n u) (ht : ts[n]? = some (.free r)) (hv : vs[n]? = some v) :
    After ts vs s (n + 1) (u.bind r v) := by
  have hne {r' : Int} (hr : r' ≠ r) : ts[n]? ≠ some (.free r') := by
    rw [ht]
    rintro ⟨⟩
    exact hr rfl
  constructor
  · intro r' w
    by_cases hr : r' = r
    · rw [hr, holds_iff_of_holds holds_bind_self, heldBefore_succ_of_free ht hv]
    · rw [holds_bind_of_ne hr, h.holds_iff, heldBefore_succ_of_ne (hne hr)]
  · intro r' hun
    obtain ⟨hr, hun⟩ := unwritten_succ_iff.1 hun
    have hr : r' ≠ r := fun h => hr (h ▸ ht)
    rw [get?_bind_of_ne hr, h.get?_eq r' hun]

/-- **What one term does**: it unifies with the value at its position if and only if that value
fits, and hands on the snapshot in front of the next position. -/
theorem After.step (h : After ts vs s n u) (ht : ts[n]? = some t) (hv : vs[n]? = some v) :
    ((∃ u', t.unify v u = some u') ↔ Fits ts vs s n v t) ∧
      ∀ u', t.unify v u = some u' → After ts vs s (n + 1) u' := by
  cases t with
  | constant c =>
    simp only [Term.unify, Option.ite_none_right_eq_some, Option.some_inj, Fits]
    exact ⟨by simp, fun u' hu => hu.2 ▸ h.succ ht rfl⟩
  | reference r =>
    simp only [Term.unify, Option.ite_none_right_eq_some, Option.some_inj, Fits, ← h.holds_iff]
    exact ⟨by simp, fun u' hu => hu.2 ▸ h.succ ht rfl⟩
  | free r =>
    simp only [Term.unify, Option.some_inj, Fits]
    exact ⟨by simp, fun u' hu => hu ▸ h.bind ht hv⟩

/-- The last term meets the last value. -/
theorem unify_concat (hlength : vs.length = ts.length) :
    unify (ts ++ [t]) (vs ++ [v]) s = (unify ts vs s).bind (t.unify v) := by
  induction ts generalizing vs s with
  | nil =>
    obtain rfl := List.eq_nil_of_length_eq_zero hlength
    simp [unify]
  | cons t' ts ih =>
    obtain ⟨v', vs, rfl⟩ := List.exists_cons_of_length_eq_add_one hlength
    simp only [List.cons_append, unify, Option.bind_assoc]
    congr 1
    funext s'
    exact ih (Nat.succ.inj hlength)

/-- **What the terms before a position do**: they unify with the values before it if and only if all
of these fit, and give the snapshot in front of the position. -/
theorem unify_take (hlength : vs.length = ts.length) (hn : n ≤ ts.length) :
    ((∃ u, unify (ts.take n) (vs.take n) s = some u) ↔
      ∀ i < n, ∀ t v, ts[i]? = some t → vs[i]? = some v → Fits ts vs s i v t) ∧
      ∀ u, unify (ts.take n) (vs.take n) s = some u → After ts vs s n u := by
  induction n with
  | zero => simp [unify, After.zero]
  | succ n ih =>
    -- The terms before the position have done their part; the one at it meets the value at it.
    obtain ⟨hiff, hafter⟩ := ih (Nat.le_of_succ_le hn)
    obtain ⟨t, ht⟩ : ∃ t, ts[n]? = some t := ⟨_, List.getElem?_eq_getElem hn⟩
    obtain ⟨v, hv⟩ : ∃ v, vs[n]? = some v := ⟨_, List.getElem?_eq_getElem (hlength ▸ hn)⟩
    have hlast : unify (ts.take (n + 1)) (vs.take (n + 1)) s =
        (unify (ts.take n) (vs.take n) s).bind (t.unify v) := by
      rw [List.take_add_one, List.take_add_one, ht, hv]
      exact unify_concat (by rw [List.length_take, List.length_take, hlength])
    rw [hlast]
    constructor
    · constructor
      · rintro ⟨u', hu'⟩ i hi t' v' ht' hv'
        obtain ⟨u, hu, hstep⟩ := Option.bind_eq_some_iff.1 hu'
        rcases Nat.lt_succ_iff_lt_or_eq.1 hi with hin | rfl
        · exact hiff.1 ⟨u, hu⟩ i hin t' v' ht' hv'
        · obtain rfl : t = t' := Option.some.inj (ht.symm.trans ht')
          obtain rfl : v = v' := Option.some.inj (hv.symm.trans hv')
          exact ((hafter u hu).step ht hv).1.1 ⟨u', hstep⟩
      · intro hfits
        obtain ⟨u, hu⟩ := hiff.2 fun i hi => hfits i (Nat.lt_succ_of_lt hi)
        obtain ⟨u', hu'⟩ :=
          ((hafter u hu).step ht hv).1.2 (hfits n (Nat.lt_succ_self n) t v ht hv)
        exact ⟨u', Option.bind_eq_some_iff.2 ⟨u, hu, hu'⟩⟩
    · intro u' hu'
      obtain ⟨u, hu, hstep⟩ := Option.bind_eq_some_iff.1 hu'
      exact ((hafter u hu).step ht hv).2 u' hstep

/-- **Unification, position by position**: a pattern unifies with as many values as it has terms if
and only if at each position a constant is the same as the value there, and a reference meets what
its register holds in front of the position. The snapshot that this gives binds each register that
the pattern writes to the value at the last position that writes it, up to sameness, has all other
registers as before, and binds no others. -/
theorem unify_exact {p : Pattern} (hlength : vs.length = p.terms.length) (s : Snapshot) :
    ((∃ u, unify p.terms vs s = some u) ↔
      ∀ i t v, p.terms[i]? = some t → vs[i]? = some v → Fits p.terms vs s i v t) ∧
      ∀ u, unify p.terms vs s = some u →
        (∀ r ∈ p.writes, ∃ j v w, LastWrite p.terms r p.terms.length j ∧ vs[j]? = some v ∧
          u.get? r = some w ∧ Same w v) ∧
        (∀ r, r ∉ p.writes → u.get? r = s.get? r) ∧
        ∀ r, u.Binds r ↔ r ∈ p.writes ∨ s.Binds r := by
  obtain ⟨hiff, hafter⟩ := unify_take (s := s) hlength (Nat.le_refl _)
  have hwhole : unify (p.terms.take p.terms.length) (vs.take p.terms.length) s =
      unify p.terms vs s := by
    rw [List.take_length, ← hlength, List.take_length]
  rw [hwhole] at hiff hafter
  constructor
  · rw [hiff]
    refine ⟨fun h i t v ht hv => ?_, fun h i _ => h i⟩
    exact h i (List.getElem?_eq_some_iff.1 ht).1 t v ht hv
  · intro u hu
    have hu := hafter u hu
    have hwrites : ∀ r ∈ p.writes, ∃ j v w, LastWrite p.terms r p.terms.length j ∧
        vs[j]? = some v ∧ u.get? r = some w ∧ Same w v := by
      intro r hr
      obtain ⟨j, hj⟩ := exists_lastWrite (Pattern.mem_writes_iff.1 hr)
      obtain ⟨v, hv⟩ : ∃ v, vs[j]? = some v := ⟨_, List.getElem?_eq_getElem (hlength ▸ hj.lt)⟩
      -- The register may keep an earlier value, but one that is the same.
      have hholds := (hu.holds_iff r v).2 (.inl ⟨j, v, hj, hv, .refl v⟩)
      obtain ⟨w, hw, hwv⟩ := exists_get?_of_holds hholds
      exact ⟨j, v, w, hj, hv, hw, hwv⟩
    have hothers : ∀ r, r ∉ p.writes → u.get? r = s.get? r := fun r hr =>
      hu.get?_eq r (not_not.1 (mt Pattern.mem_writes_iff.2 hr))
    refine ⟨hwrites, hothers, fun r => ?_⟩
    by_cases hr : r ∈ p.writes
    · obtain ⟨j, v, w, -, -, hw, -⟩ := hwrites r hr
      exact iff_of_true (binds_iff.2 ⟨w, hw⟩) (.inl hr)
    · rw [Binds, hothers r hr, or_iff_right hr, Binds]

namespace Rebound

/-- A pattern that reads a register before it writes it, and writes and reads it twice. -/
def pattern : Pattern :=
  ⟨some ⟨"row", 7⟩, [.reference 0, .free 0, .reference 0, .constant (.int 0), .free 0, .reference 0,
    .reference 1]⟩

def values : List Value :=
  [.text "old", .bool true, .int 1, .bool false, .text "new", .text "new", .absent]

def snapshot : Snapshot := ⟨[(0, .text "old"), (1, .absent)], by decide⟩

/-- The first register ends with the value at the fifth position, the second one stays. -/
theorem unify_values : values.length = pattern.terms.length ∧
    ∃ u, unify pattern.terms values snapshot = some u ∧
      (∃ j v w, LastWrite pattern.terms 0 7 j ∧ values[j]? = some v ∧ u.get? 0 = some w ∧
        Same w v) ∧ u.get? 1 = some .absent := by
  have hlength : values.length = pattern.terms.length := rfl
  obtain ⟨-, hresult⟩ := unify_exact hlength snapshot
  refine ⟨hlength, _, rfl, ?_⟩
  obtain ⟨hwrites, hothers, -⟩ := hresult _ rfl
  exact ⟨hwrites 0 (by decide), hothers 1 (by decide)⟩

end Rebound

end RuleDiagram
