import Mathlib.Data.Finset.Card
import RuleDiagram.Diagram.Validity
import RuleDiagram.Proofs.Pattern

/-!
# Nodes by index

Within the range of a diagram an index names the node at its place; what a diagram mentions is what
its nodes mention.

## Main definitions

* `Diagram.indices`: the indices in range

## Main results

* `Node.mem_children_branch`, `Node.mem_targets_branch`, `Node.forall_mem_targets_branch`: the edges
  of a branch
* `Diagram.node?_eq_getElem?`, `Diagram.exists_node?_of_inRange`: the node of an index in range
* `Diagram.mem_registers`: the registers of a diagram
-/

namespace RuleDiagram

theorem inRange_iff {length : Nat} {index : Int} :
    inRange length index ↔ 0 ≤ index ∧ index < length := by
  simp [inRange]

namespace Node

variable {p : Pattern} {m r a : Option Int} {e : Edge} {t : Int}

theorem mem_children_branch : (e, a) ∈ (branch p m r).children ↔
    e = .onMatch ∧ a = m ∨ e = .onRefute ∧ a = r := by
  simp [children]

theorem mem_targets_branch : t ∈ (branch p m r).targets ↔ m = some t ∨ r = some t := by
  cases m <;> cases r <;> simp [targets, children, eq_comm]

theorem forall_mem_targets_branch {P : Int → Prop} : (∀ t ∈ (branch p m r).targets, P t) ↔
    (∀ t, m = some t → P t) ∧ ∀ t, r = some t → P t := by
  simp only [mem_targets_branch, or_imp, forall_and]

end Node

namespace Diagram

variable {d : Diagram} {i : Int} {n : Node} {r : Int}

theorem mem_nodes_of_node? (h : d.node? i = some n) : n ∈ d.nodes := by
  obtain ⟨place, -, hplace⟩ := Option.bind_eq_some_iff.1 h
  exact List.mem_of_getElem? hplace

theorem node?_eq_getElem? (h : 0 ≤ i) : d.node? i = d.nodes[i.toNat]? := by
  by_cases hi : i < d.size
  · have hplace : place? d.size i = some i.toNat := by
      simp [place?, Int.not_lt.2 h, h, hi]
    rw [node?, hplace, Option.bind_some]
  · have hplace : place? d.size i = none := by
      simp [place?, Int.not_lt.2 h, hi]
    have hlen : d.nodes.length ≤ i.toNat := by
      have : d.size = d.nodes.length := rfl
      omega
    rw [node?, hplace, Option.bind_none, List.getElem?_eq_none hlen]

theorem node?_natCast (place : Nat) : d.node? place = d.nodes[place]? := by
  rw [node?_eq_getElem? (Int.natCast_nonneg place), Int.toNat_natCast]

theorem exists_node?_of_inRange (h : inRange d.size i) : ∃ n, d.node? i = some n := by
  obtain ⟨hnonneg, hlt⟩ := inRange_iff.1 h
  have hlen : i.toNat < d.nodes.length := by
    have : d.size = d.nodes.length := rfl
    omega
  exact ⟨_, (node?_eq_getElem? hnonneg).trans (List.getElem?_eq_getElem hlen)⟩

/-- The indices in range. -/
def indices (d : Diagram) : Finset Int := (Finset.range d.size).image Nat.cast

theorem mem_indices : i ∈ d.indices ↔ inRange d.size i := by
  rw [indices, Finset.mem_image, inRange_iff]
  constructor
  · rintro ⟨place, hplace, rfl⟩
    exact ⟨Int.natCast_nonneg place, Int.ofNat_lt.2 (Finset.mem_range.1 hplace)⟩
  · rintro ⟨hnonneg, hlt⟩
    exact ⟨i.toNat, Finset.mem_range.2 (by omega), Int.toNat_of_nonneg hnonneg⟩

theorem card_indices_le : d.indices.card ≤ d.size :=
  Finset.card_image_le.trans (Finset.card_range d.size).le

theorem mem_registers : r ∈ d.registers ↔ ∃ n ∈ d.nodes, r ∈ n.pattern.registers := by
  rw [registers, mem_ascending, List.mem_flatMap]

theorem mem_registers_of_writes (h : d.node? i = some n) (hr : r ∈ n.pattern.writes) :
    r ∈ d.registers :=
  mem_registers.2
    ⟨n, mem_nodes_of_node? h, Pattern.mem_registers.2 (.inr (Pattern.mem_writes.1 hr))⟩

/-! ## Another node at a place -/

theorem node?_setNode_self {place : Nat} (h : place < d.nodes.length) :
    (d.setNode place n).node? place = some n := by
  rw [node?_natCast]
  exact List.getElem?_set_self h

theorem node?_setNode_of_ne {place : Nat} (hi : 0 ≤ i) (hne : i ≠ place) :
    (d.setNode place n).node? i = d.node? i := by
  rw [node?_eq_getElem? hi, node?_eq_getElem? hi]
  exact List.getElem?_set_ne (by omega)

end Diagram

end RuleDiagram
