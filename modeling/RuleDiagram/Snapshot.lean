import RuleDiagram.Value

/-!
# Register snapshots

A snapshot is one state of the registers on its way through a diagram: finitely many registers, each
bound to a value.

## Main definitions

* `Snapshot`: bindings in ascending order of their registers
* `Snapshot.get?`, `Snapshot.bind`
-/

namespace RuleDiagram

/-- Puts a binding into its place among bindings in ascending order. -/
def insertBinding (register : Int) (v : Value) : List (Int × Value) → List (Int × Value)
  | [] => [(register, v)]
  | (r, w) :: rest =>
    if register < r then (register, v) :: (r, w) :: rest
    else if register = r then (register, v) :: rest
    else (r, w) :: insertBinding register v rest

theorem mem_map_fst_insertBinding {register r : Int} {v : Value} {bs : List (Int × Value)} :
    r ∈ (insertBinding register v bs).map Prod.fst ↔ r = register ∨ r ∈ bs.map Prod.fst := by
  induction bs with
  | nil => simp [insertBinding]
  | cons b rest ih =>
    obtain ⟨s, w⟩ := b
    simp only [insertBinding]
    split
    · simp
    · split
      · next h => subst h; simp
      · simp only [List.map_cons, List.mem_cons, ih]; grind

theorem insertBinding_pairwise (register : Int) (v : Value) {bs : List (Int × Value)}
    (h : (bs.map Prod.fst).Pairwise (· < ·)) :
    ((insertBinding register v bs).map Prod.fst).Pairwise (· < ·) := by
  induction bs with
  | nil => simp [insertBinding]
  | cons b rest ih =>
    obtain ⟨s, w⟩ := b
    simp only [List.map_cons, List.pairwise_cons] at h
    simp only [insertBinding]
    split
    · next hlt =>
      simp only [List.map_cons, List.pairwise_cons, List.mem_cons]
      exact ⟨fun a ha => ha.elim (· ▸ hlt) fun ha => Int.lt_trans hlt (h.1 a ha), h.1, h.2⟩
    · split
      · next heq => subst heq; simpa using h
      · simp only [List.map_cons, List.pairwise_cons]
        refine ⟨fun a ha => ?_, ih h.2⟩
        rcases mem_map_fst_insertBinding.1 ha with rfl | ha
        · omega
        · exact h.1 a ha

/-- Registers bound to values, in ascending order of the registers. -/
structure Snapshot where
  bindings : List (Int × Value)
  ascending : (bindings.map Prod.fst).Pairwise (· < ·)
deriving DecidableEq

namespace Snapshot

def empty : Snapshot := ⟨[], List.Pairwise.nil⟩

instance : Inhabited Snapshot := ⟨empty⟩

instance : Canonical Snapshot where
  canonical s := ⟨s.bindings.map fun b => (b.1, canonical b.2), by
    simpa [List.map_map, Function.comp_def] using s.ascending⟩

/-- The value a register is bound to. -/
def get? (s : Snapshot) (register : Int) : Option Value := s.bindings.lookup register

/-- The bound registers, ascending. -/
def registers (s : Snapshot) : List Int := s.bindings.map Prod.fst

def size (s : Snapshot) : Nat := s.bindings.length

/-- The register is bound to a value that is the same as the given one. -/
def holds (s : Snapshot) (register : Int) (v : Value) : Bool :=
  match s.get? register with
  | some w => decide (Same w v)
  | none => false

/-- The snapshot with a register bound or rebound to a value, but for the others unchanged. -/
def set (s : Snapshot) (register : Int) (v : Value) : Snapshot :=
  ⟨insertBinding register v s.bindings, insertBinding_pairwise register v s.ascending⟩

/-- The snapshot with a register bound to a value; the snapshot itself if the register already holds
the same value. -/
def bind (s : Snapshot) (register : Int) (v : Value) : Snapshot :=
  if s.holds register v then s else s.set register v

/-- The snapshot of a list of bindings, of which later ones replace earlier ones. -/
def ofList (bindings : List (Int × Value)) : Snapshot :=
  bindings.foldl (fun s b => s.set b.1 b.2) empty

end Snapshot

/-- The description of bindings whose registers are given as text. -/
def describedBindings (bindings : List (String × Value)) : String :=
  "RegisterSnapshot(\x7b" ++
    ", ".intercalate (bindings.map fun b => "%" ++ b.1 ++ "=" ++ b.2.described) ++ "\x7d)"

/-- The description of a snapshot. -/
def Snapshot.described (s : Snapshot) : String :=
  describedBindings (s.bindings.map fun b => (integerText b.1, b.2))

end RuleDiagram
