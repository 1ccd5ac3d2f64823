import Mathlib.Data.List.Forall2

/-!
# Steps that may fail

What a sequence of steps that may fail says about its steps when it succeeds, and when it does.

## Main results

* `Except.bind_eq_ok_iff`, `Except.mapError_eq_ok_iff`: one step after another
* `List.mapM_eq_ok_iff`: one step for each member of a list
* `List.exists_forall₂_of_forall₂`: the steps for the members of a related list
-/

namespace Except

variable {ε ε' α β : Type}

theorem bind_eq_ok_iff {x : Except ε α} {f : α → Except ε β} {b : β} :
    x >>= f = .ok b ↔ ∃ a, x = .ok a ∧ f a = .ok b := by
  cases x with
  | error e =>
    constructor
    · intro h
      cases h
    · rintro ⟨a, h, -⟩
      cases h
  | ok a =>
    constructor
    · intro h
      exact ⟨a, rfl, h⟩
    · rintro ⟨_, ⟨⟩, h⟩
      exact h

theorem pure_eq_ok_iff {a b : α} : (pure a : Except ε α) = .ok b ↔ a = b :=
  Except.ok.injEq a b ▸ Iff.rfl

theorem mapError_eq_ok_iff {x : Except ε α} {f : ε → ε'} {a : α} :
    x.mapError f = .ok a ↔ x = .ok a := by
  cases x with
  | error e => simp [Except.mapError]
  | ok b => simp [Except.mapError]

theorem bind_eq_error_iff {x : Except ε α} {f : α → Except ε β} {e : ε} :
    x >>= f = .error e ↔ x = .error e ∨ ∃ a, x = .ok a ∧ f a = .error e := by
  cases x with
  | error e' =>
    constructor
    · rintro ⟨⟩
      exact .inl rfl
    · rintro (⟨⟨⟩⟩ | ⟨a, h, -⟩)
      · rfl
      · cases h
  | ok a =>
    constructor
    · intro h
      exact .inr ⟨a, rfl, h⟩
    · rintro (h | ⟨_, ⟨⟩, h⟩)
      · cases h
      · exact h

theorem mapError_eq_error_iff {x : Except ε α} {f : ε → ε'} {e' : ε'} :
    x.mapError f = .error e' ↔ ∃ e, x = .error e ∧ f e = e' := by
  cases x with
  | error e => simp [Except.mapError]
  | ok b => simp [Except.mapError]

theorem map_eq_ok_iff {x : Except ε α} {f : α → β} {b : β} :
    f <$> x = .ok b ↔ ∃ a, x = .ok a ∧ f a = b := by
  cases x <;> simp [Functor.map, Except.map]

theorem map_eq_error_iff {x : Except ε α} {f : α → β} {e : ε} :
    f <$> x = .error e ↔ x = .error e := by
  cases x <;> simp [Functor.map, Except.map]

theorem toOption_eq_some_iff {x : Except ε α} {a : α} : x.toOption = some a ↔ x = .ok a := by
  cases x <;> simp [Except.toOption]

theorem exists_of_any_toOption {x : Except ε α} {p : α → Bool} (h : x.toOption.any p) :
    ∃ a, x = .ok a ∧ p a := by
  cases x with
  | error e => cases h
  | ok a => exact ⟨a, rfl, h⟩

end Except

namespace List

variable {ε α β : Type}

theorem mapM_eq_ok_iff {f : α → Except ε β} {xs : List α} {ys : List β} :
    xs.mapM f = .ok ys ↔ Forall₂ (fun x y => f x = .ok y) xs ys := by
  induction xs generalizing ys with
  | nil =>
    rw [mapM_nil, forall₂_nil_left_iff, Except.pure_eq_ok_iff]
    exact eq_comm
  | cons x xs ih =>
    rw [mapM_cons, Except.bind_eq_ok_iff, forall₂_cons_left_iff]
    simp only [Except.bind_eq_ok_iff, Except.pure_eq_ok_iff, ih]
    constructor
    · rintro ⟨y, hy, rest, hrest, rfl⟩
      exact ⟨y, rest, hy, hrest, rfl⟩
    · rintro ⟨y, rest, hy, hrest, rfl⟩
      exact ⟨y, hy, rest, hrest, rfl⟩

/-- Where each member is related to something, the list is related to a list. -/
theorem exists_forall₂ {R : α → β → Prop} {xs : List α} (h : ∀ x ∈ xs, ∃ y, R x y) :
    ∃ ys, Forall₂ R xs ys := by
  induction xs with
  | nil => exact ⟨[], .nil⟩
  | cons x xs ih =>
    obtain ⟨y, hy⟩ := h x mem_cons_self
    obtain ⟨ys, hys⟩ := ih fun z hz => h z (mem_cons_of_mem x hz)
    exact ⟨y :: ys, .cons hy hys⟩

/-- If each step succeeds, so does the sequence. -/
theorem exists_mapM_eq_ok {f : α → Except ε β} {xs : List α} (h : ∀ x ∈ xs, ∃ y, f x = .ok y) :
    ∃ ys, xs.mapM f = .ok ys := by
  obtain ⟨ys, hys⟩ := exists_forall₂ h
  exact ⟨ys, mapM_eq_ok_iff.2 hys⟩

/-- If the sequence fails, it fails as one of the steps does. -/
theorem exists_of_mapM_eq_error {f : α → Except ε β} {xs : List α} {e : ε}
    (h : xs.mapM f = .error e) : ∃ x ∈ xs, f x = .error e := by
  induction xs with
  | nil =>
    rw [mapM_nil] at h
    cases h
  | cons x xs ih =>
    rw [mapM_cons, Except.bind_eq_error_iff] at h
    obtain h | ⟨y, -, h⟩ := h
    · exact ⟨x, mem_cons_self, h⟩
    · obtain h | ⟨ys, -, h⟩ := Except.bind_eq_error_iff.1 h
      · obtain ⟨z, hz, h⟩ := ih h
        exact ⟨z, mem_cons_of_mem x hz, h⟩
      · cases h

/-- Where related members have related results, related lists have. -/
theorem exists_forall₂_of_forall₂ {γ δ : Type} {R : α → β → Prop} {P : α → γ → Prop}
    {Q : β → δ → Prop} {S : γ → δ → Prop} {as : List α} {bs : List β} {cs : List γ}
    (hstep : ∀ a b c, R a b → P a c → ∃ d, Q b d ∧ S c d) (hR : Forall₂ R as bs)
    (hP : Forall₂ P as cs) : ∃ ds, Forall₂ Q bs ds ∧ Forall₂ S cs ds := by
  induction hR generalizing cs with
  | nil =>
    cases hP
    exact ⟨[], .nil, .nil⟩
  | @cons a b as bs hab _ ih =>
    obtain ⟨c, cs', hac, hrest, rfl⟩ := forall₂_cons_left_iff.1 hP
    obtain ⟨d, hbd, hcd⟩ := hstep a b c hab hac
    obtain ⟨ds, hQ, hS⟩ := ih hrest
    exact ⟨d :: ds, .cons hbd hQ, .cons hcd hS⟩

/-- Where the members of two lists belong together, each relation of the one list is one of the
other. -/
theorem forall₂_iff_of_forall₂ {γ : Type} {S : α → β → Prop} {R : α → γ → Prop} {T : β → γ → Prop}
    {as : List α} {bs : List β} {cs : List γ} (hS : Forall₂ S as bs)
    (h : ∀ a b c, S a b → (T b c ↔ R a c)) : Forall₂ T bs cs ↔ Forall₂ R as cs := by
  induction hS generalizing cs with
  | nil => rw [forall₂_nil_left_iff, forall₂_nil_left_iff]
  | cons hab _ ih =>
    rw [forall₂_cons_left_iff, forall₂_cons_left_iff]
    simp only [h _ _ _ hab, ih]

theorem exists_right_of_forall₂ {R : α → β → Prop} {as : List α} {bs : List β} {a : α}
    (h : Forall₂ R as bs) (ha : a ∈ as) : ∃ b ∈ bs, R a b := by
  induction h with
  | nil => cases ha
  | @cons a' b' as bs hab _ ih =>
    rcases mem_cons.1 ha with rfl | ha
    · exact ⟨b', mem_cons_self, hab⟩
    · obtain ⟨b, hb, hR⟩ := ih ha
      exact ⟨b, mem_cons_of_mem b' hb, hR⟩

theorem exists_left_of_forall₂ {R : α → β → Prop} {as : List α} {bs : List β} {b : β}
    (h : Forall₂ R as bs) (hb : b ∈ bs) : ∃ a ∈ as, R a b :=
  exists_right_of_forall₂ h.flip hb

theorem forall₂_set {R : α → α → Prop} (hrefl : ∀ x, R x x) {xs : List α} {x y : α} {i : ℕ}
    (hx : xs[i]? = some x) (h : R x y) : Forall₂ R xs (xs.set i y) := by
  induction xs generalizing i with
  | nil => exact .nil
  | cons z xs ih =>
    cases i with
    | zero =>
      obtain rfl : z = x := Option.some_inj.1 hx
      exact .cons h (forall₂_same.2 fun w _ => hrefl w)
    | succ i => exact .cons (hrefl z) (ih hx)

end List
