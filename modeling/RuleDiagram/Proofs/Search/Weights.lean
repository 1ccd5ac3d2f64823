import RuleDiagram.Proofs.Lookup
import RuleDiagram.Proofs.Search.Reduction
import RuleDiagram.Proofs.Search.Shares

/-!
# Weights that are not negative

A kind of mutation is given no weight of its own that is below zero: a call that tries fails. A
group is given any number. So a resolved weight is below zero only where the weight of a group is:
own weights come through unchanged, and weights of groups that are not below zero are reduced to one
that is not. The shares that a search derives from resolved weights are not below zero either.

## Main definitions

* `Value.NotNegative`: an absent weight, or a number that is not below zero
* `Weights.Change`, `Weights.after`: calls that change weights, and what they leave
* `Weights.inForce`: the weights of the groups of a kind
* `Weights.Spared`: no weight below zero comes to a kind from a group

## Main results

* `Weights.Change.follows_apply`: what one call does
* `Weights.Sound.after`: what all calls keep
* `Weights.Sound.exists_resolve`, `Weights.exists_resolve_min`: the weights of kinds
* `Weights.resolve_exact`: resolved weights are not below zero, unless the weight of a group is
-/

namespace RuleDiagram

open Binary64

variable {v : Value} {x : Binary64}

/-! ## Weights as values -/

/-- The weight is absent, or a number that is not below zero. -/
def Value.NotNegative (v : Value) : Prop := v = .absent ∨ v.less? (.int 0) = some false

/-- The weight is no number without a value. -/
def Value.Defined (v : Value) : Prop := ∀ x, v = .float x → x.isUndefined = false

namespace Value

theorem less?_float_zero : (float x).less? (int 0) = some (x.less .zero) := by
  have hzero : Binary64.zero.units = 0 ∧ Binary64.zero.position = 0 := ⟨by decide +kernel, rfl⟩
  have hless : (Amount.float x).less (.whole 0) = x.less .zero := by
    have hpos : 0 < infinityCode := by decide +kernel
    have hdefined : Binary64.zero.isUndefined = false := nonnegative_zero.defined
    rw [Amount.less, Binary64.less, hdefined, hzero.2, zero_mul]
    -- Finite numbers are compared by their units and infinite ones by their sign.
    cases hxf : x.isFinite with
    | true =>
      have hiff := Binary64.position_lt_iff_units_lt (x := x) (y := .zero)
      rw [hzero.1, hzero.2] at hiff
      simp [isUndefined_eq_false_of_isFinite hxf, hiff]
    | false =>
      cases hx : x.isUndefined with
      | true => simp
      | false =>
        rw [Amount.position_of_infinite hx hxf]
        cases x.negative <;> simp [hpos]
  exact congrArg some hless

theorem notNegative_float : (float x).NotNegative ↔ x.less .zero = false := by
  rw [NotNegative, less?_float_zero]
  simp

theorem less?_int_zero (n : ℤ) : (int n).less? (int 0) = some (decide (n < 0)) := rfl

end Value

namespace Weights

theorem real?_of_weightOf {a : Amount} (ha : v.amount? = some a) (h : weightOf v = .ok x) :
    a.real? = some x := by
  unfold weightOf at h
  rw [ha] at h
  dsimp only at h
  split at h
  · next y hy =>
    rw [hy, Except.ok.inj h]
  · exact nomatch h

theorem less_zero_of_real?_whole {n : ℤ} (hn : 0 ≤ n) (h : (Amount.whole n).real? = some x) :
    x.less .zero = false := by
  obtain ⟨m, rfl⟩ := Int.eq_ofNat_of_zero_le hn
  have hofInt : (Binary64.ofInt m).Nonnegative := (nonnegative_ofInt m).1
  have hx : Binary64.ofInt m = x := by
    unfold Amount.real? at h
    dsimp only at h
    split at h
    · exact Option.some_inj.1 h
    · exact nomatch h
  exact hx ▸ hofInt.less_zero

/-- What is not below zero is no weight below zero. -/
theorem less_zero_of_weightOf (hv : v.less? (.int 0) = some false) (h : weightOf v = .ok x) :
    x.less .zero = false := by
  cases v with
  | text s => cases hv
  | absent => cases hv
  | int n =>
    rw [Value.less?_int_zero, Option.some_inj, decide_eq_false_iff_not, not_lt] at hv
    exact less_zero_of_real?_whole hv (real?_of_weightOf rfl h)
  | bool b =>
    have hb : 0 ≤ Value.ofTruth b := by cases b <;> decide
    exact less_zero_of_real?_whole hb (real?_of_weightOf rfl h)
  | float y =>
    rw [Value.less?_float_zero, Option.some_inj] at hv
    cases h
    exact hv

/-! ## Entries -/

variable {α : Type} {entries : List (String × α)} {name : String} {a : α} {e : String × α}

theorem mem_putEntry (h : e ∈ putEntry entries name a) : e ∈ entries ∨ e.2 = a := by
  unfold putEntry at h
  split at h
  · obtain ⟨⟨n, b⟩, hmem, rfl⟩ := List.mem_map.1 h
    dsimp only
    split
    · exact .inr rfl
    · exact .inl hmem
  · rcases List.mem_append.1 h with h | h
    · exact .inl h
    · obtain rfl := List.mem_singleton.1 h
      exact .inr rfl

theorem mem_of_mem_dropEntry (h : e ∈ dropEntry entries name) : e ∈ entries :=
  List.mem_of_mem_filter h

/-! ## Calls -/

/-- The calls that change weights. -/
inductive Change where
  | weight (kind : String) (v : Value)
  | group (name : String) (kinds : List String) (v : Value)
  | groupWeight (name : String) (v : Value)

/-- What a call leaves that changes the weights or fails, and how it ends. -/
def settle (w : Weights) : Except WeightFault Weights → Weights × Except WeightFault Unit
  | .ok changed => (changed, .ok ())
  | .error f => (w, .error f)

/-- The weights that a call leaves, and how it ends. A call that fails leaves the weights as they
are, but for a group whose weight is at fault. -/
def Change.apply (w : Weights) : Change → Weights × Except WeightFault Unit
  | weight kind v => w.settle (w.setWeight kind v)
  | group name kinds v => w.setGroup name kinds v
  | groupWeight name v => w.settle (w.setGroupWeight name v)

/-- The weight that a call gives to a group. -/
def Change.groupWeight? : Change → Option Value
  | weight _ _ => none
  | group _ _ v => some v
  | groupWeight _ v => some v

/-- The weights that calls leave, whether they succeed or fail. -/
def after (w : Weights) (changes : List Change) : Weights :=
  changes.foldl (fun w c => (c.apply w).1) w

/-- All calls succeed, one after another. -/
def Accepts (w : Weights) : List Change → Prop
  | [] => True
  | c :: rest => (c.apply w).2 = .ok () ∧ (c.apply w).1.Accepts rest

/-- **What a call does**: weights that are there afterwards were there before or are given by the
call, and to a kind no weight below zero is given. -/
structure Change.Follows (c : Change) (w w' : Weights) : Prop where
  fallback_eq : w'.fallback = w.fallback
  own : ∀ e ∈ w'.kinds, e ∈ w.kinds ∨ e.2.less .zero = false
  groups : ∀ e ∈ w'.groupWeights, e ∈ w.groupWeights ∨
    ∃ v, c.groupWeight? = some v ∧ weightOf v = .ok e.2

theorem Change.follows_refl (c : Change) (w : Weights) : c.Follows w w :=
  ⟨rfl, fun _ h => .inl h, fun _ h => .inl h⟩

theorem follows_setWeight {w w' : Weights} {kind : String} (h : w.setWeight kind v = .ok w') :
    (Change.weight kind v).Follows w w' := by
  obtain ⟨name, -, h⟩ := Except.bind_eq_ok_iff.1 h
  split at h
  · cases h
    exact ⟨rfl, fun e he => .inl (mem_of_mem_dropEntry he), fun _ h => .inl h⟩
  · split at h
    · cases h
    · cases h
    · next hv =>
      -- The weight has passed the check for negative ones.
      obtain ⟨x, hx, h⟩ := Except.bind_eq_ok_iff.1 h
      cases h
      refine ⟨rfl, fun e he => ?_, fun _ h => .inl h⟩
      rcases mem_putEntry he with he | rfl
      · exact .inl he
      · exact .inr (less_zero_of_weightOf hv hx)

theorem follows_putGroupWeight {w w' : Weights} {c : Change} {group : String}
    (hc : c.groupWeight? = some v) (h : w.putGroupWeight group v = .ok w') : c.Follows w w' := by
  obtain ⟨x, hx, h⟩ := Except.bind_eq_ok_iff.1 h
  cases h
  refine ⟨rfl, fun _ h => .inl h, fun e he => ?_⟩
  rcases mem_putEntry he with he | rfl
  · exact .inl he
  · exact .inr ⟨v, hc, hx⟩

theorem follows_setGroupWeight {w w' : Weights} (h : w.setGroupWeight name v = .ok w') :
    (Change.groupWeight name v).Follows w w' := by
  obtain ⟨group, -, h⟩ := Except.bind_eq_ok_iff.1 h
  split at h
  · cases h
    exact ⟨rfl, fun _ h => .inl h, fun e he => .inl (mem_of_mem_dropEntry he)⟩
  · exact follows_putGroupWeight rfl h

theorem follows_setGroup (w : Weights) (name : String) (kinds : List String) (v : Value) :
    (Change.group name kinds v).Follows w (w.setGroup name kinds v).1 := by
  unfold setGroup
  split
  · exact Change.follows_refl _ w
  · next group members _ =>
    -- The group itself has no weight yet.
    have hgroup : (Change.group name kinds v).Follows w
        { w with groups := putEntry w.groups group members } :=
      ⟨rfl, fun _ h => .inl h, fun _ h => .inl h⟩
    dsimp only
    split
    · exact hgroup
    · split
      · next changed hchanged =>
        have hweight := follows_putGroupWeight (c := .group name kinds v) rfl hchanged
        exact ⟨hweight.fallback_eq, hweight.own, hweight.groups⟩
      · exact hgroup

theorem Change.follows_settle {c : Change} {w : Weights} {result : Except WeightFault Weights}
    (h : ∀ changed, result = .ok changed → c.Follows w changed) :
    c.Follows w (w.settle result).1 := by
  cases result with
  | ok changed => exact h changed rfl
  | error f => exact c.follows_refl w

/-- What a call leaves follows from what was there. -/
theorem Change.follows_apply (c : Change) (w : Weights) : c.Follows w (c.apply w).1 := by
  cases c with
  | weight kind v =>
    rw [apply]
    exact follows_settle fun changed h => follows_setWeight h
  | group name kinds v =>
    rw [apply]
    exact follows_setGroup w name kinds v
  | groupWeight name v =>
    rw [apply]
    exact follows_settle fun changed h => follows_setGroupWeight h

/-! ## Sequences of calls -/

variable {fallback : Value} {w : Weights} {changes : List Change}

/-- What calls on new weights keep, whatever they are: the default, and own weights that are not
below zero. -/
structure Sound (fallback : Value) (w : Weights) : Prop where
  fallback_eq : w.fallback = fallback
  own : ∀ e ∈ w.kinds, e.2.less .zero = false

theorem sound_uniform (fallback : Value) : (uniform fallback).Sound fallback :=
  ⟨rfl, fun _ h => nomatch h⟩

theorem Sound.apply (h : w.Sound fallback) (c : Change) : (c.apply w).1.Sound fallback where
  fallback_eq := (c.follows_apply w).fallback_eq.trans h.fallback_eq
  own e he := ((c.follows_apply w).own e he).elim (h.own e) id

/-- **Own weights are never below zero**, whatever calls are made. -/
theorem Sound.after (h : w.Sound fallback) (changes : List Change) :
    (w.after changes).Sound fallback := by
  induction changes generalizing w with
  | nil => exact h
  | cons c rest ih => exact ih (h.apply c)

/-- Where all weights given to groups have a property, all weights of groups have it. -/
theorem groupWeights_after {P : Binary64 → Prop} (hw : ∀ e ∈ w.groupWeights, P e.2)
    (hchanges : ∀ c ∈ changes, ∀ v, c.groupWeight? = some v → ∀ x, weightOf v = .ok x → P x) :
    ∀ e ∈ (w.after changes).groupWeights, P e.2 := by
  induction changes generalizing w with
  | nil => exact hw
  | cons c rest ih =>
    -- After the first call the weights of groups are old ones, or the one that the call gives.
    refine ih (fun e he => ?_) fun c' hc' => hchanges c' (List.mem_cons_of_mem c hc')
    rcases (c.follows_apply w).groups e he with he | ⟨v, hv, hx⟩
    · exact hw e he
    · exact hchanges c List.mem_cons_self v hv e.2 hx

end Weights

/-! ## Resolved weights -/

namespace Weights

variable {fallback default : Value} {w : Weights} {changes : List Change} {kind name mode : String}

/-- The weights of the groups that a kind belongs to, as far as they have one. -/
def inForce (w : Weights) (name : String) : List Binary64 :=
  w.groups.filterMap fun (group, members) =>
    if members.contains name then w.groupWeights.lookup group else none

theorem weightsOfGroups_eq (w : Weights) (name : String) :
    w.weightsOfGroups name = (w.inForce name).map .float := by
  rw [weightsOfGroups, inForce, List.map_filterMap]
  refine List.filterMap_congr fun ⟨group, members⟩ _ => ?_
  dsimp only
  split <;> rfl

theorem exists_of_mem_inForce (h : x ∈ w.inForce name) : ∃ group, (group, x) ∈ w.groupWeights := by
  obtain ⟨⟨group, members⟩, -, hx⟩ := List.mem_filterMap.1 h
  dsimp only at hx
  split at hx
  · exact ⟨group, List.mem_of_lookup_eq_some hx⟩
  · cases hx

/-- No weight below zero comes to a kind from a group: the kind has a weight of its own, or none of
its groups has such a weight. -/
def Spared (w : Weights) (name : String) : Prop :=
  w.kinds.lookup name = none → ∀ x ∈ w.inForce name, x.less .zero = false

/-- The weights of a kind and of its groups have a value, and the groups can be counted. -/
structure HasValues (w : Weights) (name : String) : Prop where
  own : ∀ x, w.kinds.lookup name = some x → x.isUndefined = false
  groups : ∀ x ∈ w.inForce name, x.isUndefined = false
  count : (Binary64.ofInt (w.inForce name).length).isFinite = true

theorem resolve_of_own (hname : kindName kind = .ok name) (hown : w.kinds.lookup name = some x) :
    w.resolve kind default mode = .ok (.float x) := by
  refine Except.bind_eq_ok_iff.2 ⟨name, hname, ?_⟩
  rw [hown]
  rfl

theorem resolve_of_nil (hname : kindName kind = .ok name) (hown : w.kinds.lookup name = none)
    (hforce : w.inForce name = []) :
    w.resolve kind default mode = .ok (if default = .absent then w.fallback else default) := by
  refine Except.bind_eq_ok_iff.2 ⟨name, hname, ?_⟩
  rw [hown, weightsOfGroups_eq, hforce]
  rfl

theorem resolve_of_cons {r : Reduction} {first : Binary64} {rest : List Binary64}
    (hname : kindName kind = .ok name) (hown : w.kinds.lookup name = none)
    (hforce : w.inForce name = first :: rest) (hmode : Reduction.ofName? mode = some r) :
    w.resolve kind default mode = .ok (.float (r.ofFloats first rest)) := by
  refine Except.bind_eq_ok_iff.2 ⟨name, hname, ?_⟩
  rw [hown, weightsOfGroups_eq, hforce]
  have hreduce : reduceWeights (.float first :: rest.map .float) mode =
      .ok (.float (r.ofFloats first rest)) := by
    rw [reduceWeights, hmode]
    exact r.reduceFrom_floats first rest
  exact hreduce

/-- A kind that is spared has a weight that is absent or not below zero, and one with a value if all
weights that it may come from have one. -/
theorem Sound.exists_resolve {r : Reduction} (h : w.Sound fallback)
    (hfallback : fallback.NotNegative) (hname : kindName kind = .ok name)
    (hdefault : default.NotNegative)
    (hmode : Reduction.ofName? mode = some r) (hspared : w.Spared name) :
    ∃ v, w.resolve kind default mode = .ok v ∧ v.NotNegative ∧
      (fallback.Defined → default.Defined → w.HasValues name → v.Defined) := by
  cases hown : w.kinds.lookup name with
  | some x =>
    have hx := h.own _ (List.mem_of_lookup_eq_some hown)
    refine ⟨_, resolve_of_own hname hown, Value.notNegative_float.2 hx, fun _ _ hvalues y hy => ?_⟩
    cases hy
    exact hvalues.own x hown
  | none =>
    have hgroups := hspared hown
    cases hforce : w.inForce name with
    | nil =>
      -- Neither the kind nor a group of it has a weight, so a default is taken.
      refine ⟨_, resolve_of_nil hname hown hforce, ?_, fun hvalue hvalue' _ => ?_⟩
      · rw [h.fallback_eq]
        split
        · exact hfallback
        · exact hdefault
      · rw [h.fallback_eq]
        split
        · exact hvalue
        · exact hvalue'
    | cons first rest =>
      rw [hforce] at hgroups
      obtain ⟨hreduced, hdefined⟩ := Reduction.less_zero_ofFloats r hgroups
      refine ⟨_, resolve_of_cons hname hown hforce hmode, Value.notNegative_float.2 hreduced,
        fun _ _ hvalues y hy => ?_⟩
      cases hy
      have hcount := hvalues.count
      rw [hforce, List.length_cons] at hcount
      exact hdefined (fun x hx => hvalues.groups x (hforce ▸ hx)) hcount

/-- A kind that is not spared has a least weight below zero. -/
theorem exists_resolve_min (hname : kindName kind = .ok name) (hspared : ¬ w.Spared name)
    (hdefined : ∀ x ∈ w.inForce name, x.isUndefined = false) :
    ∃ v, w.resolve kind default "min" = .ok v ∧ ¬ v.NotNegative := by
  have hmode : Reduction.ofName? "min" = some .min := by decide +kernel
  obtain ⟨hown, x, hx, hbelow⟩ : w.kinds.lookup name = none ∧
      ∃ x ∈ w.inForce name, x.less .zero = true := by
    simpa [Spared] using hspared
  cases hforce : w.inForce name with
  | nil =>
    rw [hforce] at hx
    cases hx
  | cons first rest =>
    rw [hforce] at hx hdefined
    -- The least weight is not above the one below zero, so that one would not be below zero either.
    refine ⟨_, resolve_of_cons hname hown hforce hmode, fun hleast => ?_⟩
    have hle := Reduction.position_extremeOf_le hdefined hx
    have hnonnegative := less_zero_eq_false_iff.1 (Value.notNegative_float.1 hleast)
      (hdefined _ (Reduction.extremeOf_mem Binary64.less first rest))
    have hxnonnegative : x.Nonnegative :=
      ⟨hdefined x hx, hnonnegative.position_nonneg.trans hle⟩
    rw [hxnonnegative.less_zero] at hbelow
    cases hbelow

/-- The number that goes into the shares for a kind that is spared is not below zero. -/
theorem Sound.less_zero_of_ofKind (h : w.Sound fallback) (hfallback : fallback.NotNegative)
    (hspared : ∀ name, kindName kind = .ok name → w.Spared name) (hx : w.ofKind kind = .ok x) :
    x.less .zero = false := by
  have hmode : Reduction.ofName? "mean" = some .mean := by decide +kernel
  obtain ⟨v, hv, hx⟩ := Except.bind_eq_ok_iff.1 hx
  obtain ⟨name, hname, -⟩ := Except.bind_eq_ok_iff.1 hv
  obtain ⟨v', hv', hsign, -⟩ :=
    h.exists_resolve hfallback hname (.inl rfl) hmode (hspared name hname)
  obtain rfl := Except.ok.inj (hv.symm.trans hv')
  split at hx
  · -- A kind without a weight counts as zero.
    cases hx
    exact nonnegative_zero.less_zero
  · next hpresent => exact less_zero_of_weightOf (hsign.resolve_left hpresent) hx

/-- **Resolved weights are not below zero, unless the weight of a group is.** On new weights with a
default that is absent or not below zero, and after any calls, each kind that is spared has a weight
that is absent or not below zero, whatever the given default and the reduction. One that is not has
a least weight below zero. All kinds are spared if no call gives a group a weight below zero, and
the shares of kinds that are spared are not below zero. -/
theorem resolve_exact (hfallback : fallback.NotNegative)
    (hw : (uniform fallback).after changes = w) :
    (∀ kind name default mode, kindName kind = .ok name → default.NotNegative →
      (Reduction.ofName? mode).isSome → w.Spared name →
      ∃ v, w.resolve kind default mode = .ok v ∧ v.NotNegative ∧
        (fallback.Defined → default.Defined → w.HasValues name → v.Defined)) ∧
    (∀ kind name default, kindName kind = .ok name → ¬ w.Spared name →
      (∀ x ∈ w.inForce name, x.isUndefined = false) →
      ∃ v, w.resolve kind default "min" = .ok v ∧ ¬ v.NotNegative) ∧
    ((∀ c ∈ changes, ∀ v, c.groupWeight? = some v →
      ∀ x, weightOf v = .ok x → x.less .zero = false) → ∀ name, w.Spared name) ∧
    (∀ (kinds : List String) (weights : List Binary64), kinds.mapM w.ofKind = .ok weights →
      (∀ kind ∈ kinds, ∀ name, kindName kind = .ok name → w.Spared name) →
      ∀ p ∈ shares weights, p.less .zero = false) := by
  have hsound : w.Sound fallback := hw ▸ (sound_uniform fallback).after changes
  refine ⟨fun kind name default mode hname hdefault hmode hspared => ?_,
    fun kind name default hname hspared hdefined => exists_resolve_min hname hspared hdefined,
    fun hchanges name _ x hx => ?_, fun kinds weights hweights hspared p hp => ?_⟩
  · obtain ⟨r, hr⟩ := Option.isSome_iff_exists.1 hmode
    exact hsound.exists_resolve hfallback hname hdefault hr hspared
  · obtain ⟨group, hgroup⟩ := exists_of_mem_inForce hx
    have hgiven := groupWeights_after (w := uniform fallback) (fun _ h => nomatch h) hchanges
    rw [hw] at hgiven
    exact hgiven _ hgroup
  · refine less_zero_of_mem_shares (fun x hx => ?_) hp
    obtain ⟨kind, hkind, hx⟩ := List.exists_left_of_forall₂ (List.mapM_eq_ok_iff.1 hweights) hx
    exact hsound.less_zero_of_ofKind hfallback (hspared kind hkind) hx

/-- Calls that give weights to overlapping groups, and one kind a weight of its own. -/
def edgeChanges : List Change :=
  [.group "edges" ["SpliceEdge", "RedirectEdge"] (.int 4), .groupWeight "size_changing" (.int 2),
    .weight "Graft" (.int 8)]

/-- The kind in both groups has a weight that is not below zero, and so have the shares. -/
theorem resolve_edges : ∃ v weights, (uniform .absent).Accepts edgeChanges ∧
    ((uniform .absent).after edgeChanges).resolve "SpliceEdge" .absent "mean" = .ok v ∧
    v.NotNegative ∧ v.Defined ∧
    ["SpliceEdge", "Graft"].mapM ((uniform .absent).after edgeChanges).ofKind = .ok weights ∧
    ∀ p ∈ shares weights, p.less .zero = false := by
  have hgiven : ∀ c ∈ edgeChanges, ∀ v, c.groupWeight? = some v →
      ∀ x, weightOf v = .ok x → x.less .zero = false := by
    have hall : ∀ c ∈ edgeChanges, c.groupWeight?.all fun v => v.less? (.int 0) == some false := by
      decide
    intro c hc v hv x hx
    have hv := (Option.all_eq_true _ _).1 (hall c hc) v hv
    exact less_zero_of_weightOf (eq_of_beq hv) hx
  have haccepts : (uniform .absent).Accepts edgeChanges := by
    refine ⟨?_, ?_, ?_, trivial⟩ <;> exact Except.toOption_eq_some_iff.1 (by decide +kernel)
  have hvalues : ((uniform .absent).after edgeChanges).HasValues "SpliceEdge" :=
    ⟨by decide +kernel, by decide +kernel, by decide +kernel⟩
  have hname : kindName "SpliceEdge" = .ok "SpliceEdge" := by decide +kernel
  have hmode : (Reduction.ofName? "mean").isSome := by decide +kernel
  have hweights : (["SpliceEdge", "Graft"].mapM
      ((uniform .absent).after edgeChanges).ofKind).toOption.isSome := by
    decide +kernel
  obtain ⟨weights, hweights⟩ := Option.isSome_iff_exists.1 hweights
  have hweights := Except.toOption_eq_some_iff.1 hweights
  have habsent : Value.absent.NotNegative := .inl rfl
  have habsent' : Value.absent.Defined := fun x hx => nomatch hx
  have hw : (uniform .absent).after edgeChanges = (uniform .absent).after edgeChanges := rfl
  obtain ⟨hresolve, -, hspared, hshares⟩ := resolve_exact habsent hw
  obtain ⟨v, hv, hsign, hdefined⟩ := hresolve "SpliceEdge" "SpliceEdge" .absent "mean" hname habsent
    hmode (hspared hgiven _)
  exact ⟨v, weights, haccepts, hv, hsign, hdefined habsent' habsent' hvalues, hweights,
    hshares _ weights hweights fun _ _ name _ => hspared hgiven name⟩

/-- A group with a weight below zero gives its kinds one. -/
theorem not_forall_resolve : ¬ ∀ (fallback : Value) (changes : List Change) (kind : String)
    (default : Value) (mode : String) (v : Value), fallback.NotNegative →
    (uniform fallback).Accepts changes → default.NotNegative →
    ((uniform fallback).after changes).resolve kind default mode = .ok v → v.NotNegative := by
  intro h
  have hresolve : (((uniform (.int 1)).after [.groupWeight "neutral" (.int (-1))]).resolve
      "BindConstant" .absent "mean").toOption.any fun v => v.less? (.int 0) == some true := by
    decide +kernel
  obtain ⟨v, hv, hbelow⟩ := Except.exists_of_any_toOption hresolve
  have haccepts : (uniform (.int 1)).Accepts [.groupWeight "neutral" (.int (-1))] :=
    ⟨Except.toOption_eq_some_iff.1 (by decide +kernel), trivial⟩
  have hsign := h (.int 1) _ "BindConstant" .absent "mean" v (.inr rfl) haccepts (.inl rfl) hv
  rcases hsign with rfl | hv
  · cases hbelow
  · rw [hv] at hbelow
    cases hbelow

end Weights

end RuleDiagram
