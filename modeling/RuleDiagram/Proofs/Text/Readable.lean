import RuleDiagram.Pattern
import RuleDiagram.Proofs.Text.Literal
import RuleDiagram.Proofs.Text.Numeral

/-!
# Parts that are told apart by their texts

In a description every part of a record and every member of a list stands before a comma or a
closing bracket. Parts are readable when, before one of these, the text settles which part it is and
where it ends. Texts without commas and brackets only need to be different; a literal carries its
own end; and a list inherits the property from its members.

## Main definitions

* `Closes`: what stands behind a part
* `Readable`: parts that are told apart by their texts

## Main results

* `Readable.injOn`: different parts have different texts
* `readable_of_injOn`: texts without commas and brackets
* `readable_literal`, `readable_integerText`: texts and integers
* `readable_tupleText`: lists of readable members
-/

namespace RuleDiagram

variable {α : Type} {s : Set α} {form : α → String} {cs ds xs ys : List Char}

/-- What stands behind a part of a record or of a list begins with a comma or a closing bracket. -/
def Closes (xs : List Char) : Prop := xs.head? = some ',' ∨ xs.head? = some ')'

theorem Closes.append (h : Closes xs) (ys : List Char) : Closes (xs ++ ys) := by
  unfold Closes at *
  rw [List.head?_append]
  exact h.imp (fun h => by rw [h, Option.some_or]) fun h => by rw [h, Option.some_or]

/-- **The members of a set are told apart by their texts**: before a comma or a closing bracket, the
text settles which member it is of, and where it ends. -/
def Readable (s : Set α) (form : α → String) : Prop :=
  ∀ x ∈ s, ∀ y ∈ s, ∀ xs ys, Closes xs → Closes ys →
    (form x).toList ++ xs = (form y).toList ++ ys → x = y ∧ xs = ys

theorem Readable.injOn (h : Readable s form) : Set.InjOn form s := by
  intro x hx y hy hxy
  exact (h x hx y hy [')'] [')'] (.inr rfl) (.inr rfl) (by rw [hxy])).1

/-- A part is settled together with the separator that stands behind it. -/
theorem Readable.eq_of_append (h : Readable s form) {separator : String}
    (hseparator : Closes separator.toList) {x y : α} (hx : x ∈ s) (hy : y ∈ s)
    (heq : (form x).toList ++ (separator.toList ++ xs) =
      (form y).toList ++ (separator.toList ++ ys)) : x = y ∧ xs = ys := by
  obtain ⟨hxy, hrest⟩ := h x hx y hy _ _ (hseparator.append xs) (hseparator.append ys) heq
  exact ⟨hxy, List.append_cancel_left hrest⟩

/-! ## Texts without commas and brackets -/

/-- The character is neither a comma nor a closing bracket. -/
def isPlain (c : Char) : Bool := decide (c ≠ ',' ∧ c ≠ ')')

theorem eq_of_plain_append (hcs : ∀ c ∈ cs, isPlain c) (hds : ∀ c ∈ ds, isPlain c)
    (hxs : Closes xs) (hys : Closes ys) (h : cs ++ xs = ds ++ ys) : cs = ds ∧ xs = ys := by
  have hstop {zs : List Char} (hzs : Closes zs) (c : Char) (hc : zs.head? = some c) :
      isPlain c = false := by
    obtain hzs | hzs := hzs
    all_goals
      rw [hzs] at hc
      cases hc
      rfl
  have htake := congrArg (List.takeWhile isPlain) h
  rw [takeWhile_append_of_stop hcs (hstop hxs), takeWhile_append_of_stop hds (hstop hys)] at htake
  subst htake
  exact ⟨rfl, List.append_cancel_left h⟩

/-- Parts whose texts hold neither commas nor closing brackets are readable if the texts differ. -/
theorem readable_of_injOn (hplain : ∀ x ∈ s, ∀ c ∈ (form x).toList, isPlain c)
    (hinj : Set.InjOn form s) : Readable s form := by
  intro x hx y hy xs ys hxs hys h
  obtain ⟨htext, hrest⟩ := eq_of_plain_append (hplain x hx) (hplain y hy) hxs hys h
  exact ⟨hinj hx hy (String.ext htext), hrest⟩

theorem isPlain_of_isDigit {c : Char} (h : c.isDigit) : isPlain c := by
  obtain ⟨hle, -⟩ := toNat_of_isDigit h
  refine decide_eq_true ⟨?_, ?_⟩
  all_goals
    rintro rfl
    exact absurd hle (by decide)

theorem isDigit_or_eq_minus {c : Char} {z : Int} (h : c ∈ (integerText z).toList) :
    c.isDigit ∨ c = '-' := by
  rw [toList_integerText] at h
  split at h
  · rcases List.mem_cons.1 h with rfl | h
    · exact .inr rfl
    · exact .inl (isDigit_of_mem_toDigits h)
  · exact .inl (isDigit_of_mem_toDigits h)

theorem integerText_injective : Function.Injective integerText := by
  intro y z h
  have hchars := congrArg String.toList h
  rw [toList_integerText, toList_integerText] at hchars
  -- The digits settle the size, the first character the sign.
  have hdigits {m n : Nat} (h : Nat.toDigits 10 m = Nat.toDigits 10 n) : m = n := by
    rw [← naturalOfDigits_toDigits m, h, naturalOfDigits_toDigits]
  have hsign {m n : Nat} : '-' :: Nat.toDigits 10 m ≠ Nat.toDigits 10 n := fun h =>
    head?_toDigits_ne_minus (congrArg List.head? h).symm
  split_ifs at hchars with hy hz hz
  · have := hdigits (List.cons.inj hchars).2
    omega
  · exact absurd hchars hsign
  · exact absurd hchars.symm hsign
  · have := hdigits hchars
    omega

theorem readable_integerText : Readable Set.univ integerText := by
  refine readable_of_injOn (fun z _ c hc => ?_) integerText_injective.injOn
  rcases isDigit_or_eq_minus hc with h | rfl
  · exact isPlain_of_isDigit h
  · rfl

theorem readable_literal : Readable Set.univ literal := fun _ _ _ _ _ _ _ _ h =>
  eq_of_literal_append h

/-! ## Lists -/

/-- The text of the members of a list behind the first one, with the closing bracket. -/
def furtherMembers : List String → List Char
  | [] => [')']
  | m :: ms => ',' :: ' ' :: (m.toList ++ furtherMembers ms)

theorem closes_furtherMembers (ms : List String) (xs : List Char) :
    Closes (furtherMembers ms ++ xs) := by
  cases ms with
  | nil => exact .inr rfl
  | cons m ms => exact .inl rfl

theorem toList_intercalate_cons (m : String) (ms : List String) :
    (", ".intercalate (m :: ms)).toList ++ [')'] = m.toList ++ furtherMembers ms := by
  induction ms generalizing m with
  | nil => rw [String.intercalate_singleton, furtherMembers]
  | cons n ms ih =>
    rw [String.intercalate_cons_cons, String.toList_append, String.toList_append,
      List.append_assoc, List.append_assoc, ih]
    rfl

/-- The text of a list that has members: a single one is followed by a comma. -/
theorem toList_tupleText_cons (m : String) (ms : List String) : (tupleText (m :: ms)).toList =
    '(' :: (m.toList ++ if ms = [] then [',', ')'] else furtherMembers ms) := by
  cases ms with
  | nil => simp [tupleText]
  | cons n ms =>
    rw [tupleText, String.toList_append, String.toList_append, List.append_assoc, if_neg (by simp)]
    · exact congrArg ('(' :: ·) (toList_intercalate_cons m (n :: ms))
    · simp

theorem Readable.eq_of_furtherMembers_append (h : Readable s form) {as bs : List α}
    (has : ∀ x ∈ as, x ∈ s) (hbs : ∀ x ∈ bs, x ∈ s)
    (heq : furtherMembers (as.map form) ++ xs = furtherMembers (bs.map form) ++ ys) :
    as = bs ∧ xs = ys := by
  induction as generalizing bs with
  | nil =>
    cases bs with
    | nil => exact ⟨rfl, (List.cons.inj heq).2⟩
    | cons b bs => exact absurd (List.cons.inj heq).1 (by decide)
  | cons a as ih =>
    cases bs with
    | nil => exact absurd (List.cons.inj heq).1 (by decide)
    | cons b bs =>
      rw [List.forall_mem_cons] at has hbs
      simp only [List.map_cons, furtherMembers, List.cons_append, List.append_assoc] at heq
      obtain ⟨rfl, hrest⟩ := h a has.1 b hbs.1 _ _ (closes_furtherMembers _ _)
        (closes_furtherMembers _ _) (List.cons.inj (List.cons.inj heq).2).2
      obtain ⟨rfl, rfl⟩ := ih has.2 hbs.2 hrest
      exact ⟨rfl, rfl⟩

/-- **Lists of readable members are readable**, if no text of a member begins with a closing bracket
or is empty. -/
theorem readable_tupleText (h : Readable s form)
    (hfirst : ∀ x ∈ s, ∃ c, (form x).toList.head? = some c ∧ c ≠ ')') :
    Readable {as | ∀ x ∈ as, x ∈ s} fun as : List α => tupleText (as.map form) := by
  -- Behind the first member the empty list, a single member and several ones differ.
  have hempty (b : α) (bs : List α) (hb : b ∈ s) (xs ys : List Char) :
      (tupleText []).toList ++ xs ≠
        (tupleText ((b :: bs).map form)).toList ++ ys := by
    obtain ⟨c, hc, hne⟩ := hfirst b hb
    obtain ⟨cs, hcs⟩ := List.head?_eq_some_iff.1 hc
    rw [List.map_cons, toList_tupleText_cons, hcs]
    intro heq
    exact hne (List.cons.inj (List.cons.inj heq).2).1.symm
  have hclose (ms : List String) (xs : List Char) :
      Closes ((if ms = [] then [',', ')'] else furtherMembers ms) ++ xs) := by
    split
    · exact .inl rfl
    · exact closes_furtherMembers ms xs
  have hsingle (m : String) (ms : List String) (xs ys : List Char) :
      [',', ')'] ++ xs ≠ furtherMembers (m :: ms) ++ ys := by
    intro heq
    exact absurd (List.cons.inj (List.cons.inj heq).2).1 (by decide)
  intro as has bs hbs xs ys _ _ heq
  cases as with
  | nil =>
    cases bs with
    | nil => exact ⟨rfl, List.append_cancel_left heq⟩
    | cons b bs => exact absurd heq (hempty b bs (hbs b List.mem_cons_self) xs ys)
  | cons a as =>
    cases bs with
    | nil => exact absurd heq.symm (hempty a as (has a List.mem_cons_self) ys xs)
    | cons b bs =>
      rw [Set.mem_ofPred_eq, List.forall_mem_cons] at has hbs
      simp only [List.map_cons, toList_tupleText_cons, List.cons_append, List.append_assoc] at heq
      obtain ⟨rfl, hrest⟩ := h a has.1 b hbs.1 _ _ (hclose _ _) (hclose _ _) (List.cons.inj heq).2
      cases as with
      | nil =>
        cases bs with
        | nil => exact ⟨rfl, List.append_cancel_left hrest⟩
        | cons b bs => exact absurd hrest (hsingle _ _ xs ys)
      | cons a as =>
        cases bs with
        | nil => exact absurd hrest.symm (hsingle _ _ ys xs)
        | cons b bs =>
          obtain ⟨hmembers, rfl⟩ := h.eq_of_furtherMembers_append has.2 hbs.2 hrest
          exact ⟨congrArg _ hmembers, rfl⟩

end RuleDiagram
