import RuleDiagram.Proofs.Builder.Calls

/-!
# Calls that fail

A caller may carry on after a call that fails. The builder is then as if the call had not been made,
with one exception: a call that asks for the next slot with a label that is taken leaves the slot
behind. So leaving the failing calls out changes the latest slot, and mostly what is built, exactly
if one of them is of that kind.

## Main definitions

* `Builder.attempt`: calls in turn, whether they fail or not
* `Builder.kept`: the calls that succeed
* `Builder.traced`: the calls that succeed, and a slot for each that leaves one behind

## Main results

* `Builder.attempt_kept_iff`: when the calls that fail may be left out
* `RepeatedLabel.not_forall_attempt_kept`: a call that fails and may not be left out
-/

namespace RuleDiagram

variable {π ι : Type} {b b' : Builder π ι} {c : Call π ι} {calls : List (Call π ι)}

/-- The fault is one of the diagram or of a call, not one of an index or of a missing name. -/
def BuilderFault.IsMalformed : BuilderFault → Prop
  | noSuchSlot | noSlotNamed => False
  | _ => True

namespace Builder

theorem length_eq_of_last?_eq (h : b.last? = b'.last?) : b.slots.length = b'.slots.length := by
  simp only [last?, List.isEmpty_iff, ← List.length_eq_zero_iff] at h
  split at h <;> split at h
  · omega
  · cases h
  · cases h
  · rw [Option.some_inj] at h
    omega

variable [SlotIndex ι]

/-- The builder after calls in turn, whether they fail or not. -/
def attempt (b : Builder π ι) : List (Call π ι) → Builder π ι
  | [] => b
  | c :: calls => attempt (c.perform.outcome b).2 calls

/-- The faults of calls in turn. -/
def faults (b : Builder π ι) : List (Call π ι) → List BuilderFault
  | [] => []
  | c :: calls =>
    match c.perform.outcome b with
    | (.ok _, b') => b'.faults calls
    | (.error f, b') => f :: b'.faults calls

/-- The calls that succeed among calls in turn. -/
def kept (b : Builder π ι) : List (Call π ι) → List (Call π ι)
  | [] => []
  | c :: calls =>
    match c.perform.outcome b with
    | (.ok _, b') => c :: b'.kept calls
    | (.error _, b') => b'.kept calls

/-- The number of slots that failing calls leave behind. -/
def leftSlots (b : Builder π ι) : List (Call π ι) → Nat
  | [] => 0
  | c :: calls =>
    (if c.leavesSlot b then 1 else 0) + (c.perform.outcome b).2.leftSlots calls

/-- The calls that succeed, and in place of each that leaves a slot behind one that reserves it. -/
def traced (b : Builder π ι) : List (Call π ι) → List (Call π ι)
  | [] => []
  | c :: calls =>
    match c.perform.outcome b with
    | (.ok _, b') => c :: b'.traced calls
    | (.error _, b') =>
      if c.leavesSlot b then .reserve none :: b'.traced calls else b'.traced calls

/-! ## Sequences of calls -/

theorem attempt_of_runs (h : Call.Runs b calls b') : b.attempt calls = b' := by
  induction calls generalizing b with
  | nil => exact Call.runs_nil_iff.1 h
  | cons c calls ih =>
    obtain ⟨b₁, hstep, h⟩ := Call.runs_cons_iff.1 h
    rw [attempt, hstep.outcome_eq]
    exact ih h

/-- **What calls do, failing ones among them, others do without failing.** -/
theorem runs_traced (b : Builder π ι) (calls : List (Call π ι)) :
    Call.Runs b (b.traced calls) (b.attempt calls) := by
  induction calls generalizing b with
  | nil => exact Call.runs_nil_iff.2 rfl
  | cons c calls ih =>
    obtain ⟨b', hstep⟩ | ⟨f, hf⟩ := Call.step_or_error c b
    · simp only [traced, attempt, hstep.outcome_eq]
      exact Call.runs_cons_iff.2 ⟨b', hstep, ih b'⟩
    · -- A call that fails does nothing, or it acts as a reservation without a label.
      simp only [traced, attempt, hf]
      cases c.leavesSlot b with
      | false => exact ih b
      | true => exact Call.runs_cons_iff.2 ⟨_, .reserve rfl, ih _⟩

theorem traced_eq_kept (h : b.leftSlots calls = 0) : b.traced calls = b.kept calls := by
  induction calls generalizing b with
  | nil => rfl
  | cons c calls ih =>
    rw [leftSlots, Nat.add_eq_zero_iff] at h
    obtain ⟨b', hstep⟩ | ⟨f, hf⟩ := Call.step_or_error c b
    · simp only [traced, kept, hstep.outcome_eq] at h ⊢
      rw [ih h.2]
    · simp only [traced, kept, hf] at h ⊢
      cases hleaves : c.leavesSlot b with
      | false =>
        rw [hleaves] at h
        exact ih h.2
      | true =>
        rw [hleaves] at h
        cases h.1

/-! ## The number of slots -/

theorem length_slots_attempt (b : Builder π ι) (calls : List (Call π ι)) :
    (b.attempt calls).slots.length =
      b.slots.length + (b.kept calls).countP Call.isFresh + b.leftSlots calls := by
  induction calls generalizing b with
  | nil => rfl
  | cons c calls ih =>
    obtain ⟨b', hstep⟩ | ⟨f, hf⟩ := Call.step_or_error c b
    · simp only [attempt, kept, leftSlots, hstep.outcome_eq, ih, hstep.leavesSlot_eq_false,
        List.countP_cons, hstep.length_slots, Bool.false_eq_true, if_false]
      omega
    · simp only [attempt, kept, leftSlots, hf, ih]
      cases c.leavesSlot b with
      | false => simp
      | true => simp; omega

/-- No more slots than asked for. -/
theorem length_slots_attempt_le (b : Builder π ι) (calls : List (Call π ι)) :
    (b.attempt calls).slots.length ≤ b.slots.length + calls.countP Call.isFresh := by
  induction calls generalizing b with
  | nil => exact Nat.le_refl _
  | cons c calls ih =>
    obtain ⟨b', hstep⟩ | ⟨f, hf⟩ := Call.step_or_error c b
    · have h := ih b'
      simp only [attempt, hstep.outcome_eq, List.countP_cons]
      rw [hstep.length_slots] at h
      omega
    · simp only [attempt, hf, List.countP_cons]
      cases hleaves : c.leavesSlot b with
      | false =>
        have h := ih b
        simp only [Bool.false_eq_true, if_false]
        omega
      | true =>
        have h := ih { b with slots := b.slots ++ [none] }
        simp only [List.length_append, List.length_singleton] at h
        simp only [if_true, Call.isFresh_of_leavesSlot hleaves]
        omega

/-- **When the calls that fail may be left out.** Calls of which some fail do what the others do,
together with a reservation without a label for each slot that a failing call leaves behind. Without
the failing calls the latest slot and the diagram are the same exactly if there is no such slot. -/
theorem attempt_kept_iff (b : Builder Pattern Int) (calls : List (Call Pattern Int)) :
    Call.Runs b (b.traced calls) (b.attempt calls) ∧
      ((b.attempt (b.kept calls)).last? = (b.attempt calls).last? ∧
        (b.attempt (b.kept calls)).build = (b.attempt calls).build ↔ b.leftSlots calls = 0) := by
  refine ⟨b.runs_traced calls, fun ⟨hlast, _⟩ => ?_, fun hleft => ?_⟩
  · -- The slots left behind are missing, since the other calls give no more than they gave before.
    have hlength := length_eq_of_last?_eq hlast
    have hcount := b.length_slots_attempt calls
    have hle := b.length_slots_attempt_le (b.kept calls)
    omega
  · have heq := attempt_of_runs (traced_eq_kept hleft ▸ b.runs_traced calls)
    rw [heq]
    exact ⟨rfl, rfl⟩

end Builder

namespace RepeatedLabel

/-- Defines a leaf labelled `a` that puts out a number. -/
def leaf (n : Int) : Call Pattern Int :=
  .define (.leaf (.named "out" fun p => ⟨some p, [.constant (.int n)]⟩)) (some "a") none

def vocabulary : Registry := ⟨[⟨"out", 1⟩], by decide⟩

/-- The second of two leaves with the same label is refused, and a slot is left that is never
defined. -/
theorem not_forall_attempt_kept :
    ¬ ∀ (registry : Option Registry) (calls : List (Call Pattern Int)),
      (∀ f ∈ (Builder.empty registry).faults calls, f.IsMalformed) →
        let b := Builder.empty registry
        (b.attempt calls).last? = (b.attempt (b.kept calls)).last? ∧
          (b.attempt calls).build = (b.attempt (b.kept calls)).build := by
  intro h
  have hfaults : (Builder.empty (some vocabulary)).faults [leaf 1, leaf 2] =
      [.duplicateLabel "a"] := rfl
  have hlast : ((Builder.empty (some vocabulary)).attempt [leaf 1, leaf 2]).last? = some 1 := rfl
  have hkept : ((Builder.empty (some vocabulary)).attempt
      ((Builder.empty (some vocabulary)).kept [leaf 1, leaf 2])).last? = some 0 := rfl
  obtain ⟨heq, -⟩ := h (some vocabulary) [leaf 1, leaf 2] (by
    rw [hfaults]
    exact List.forall_mem_singleton.2 trivial)
  cases hlast.symm.trans (heq.trans hkept)

end RepeatedLabel

end RuleDiagram
