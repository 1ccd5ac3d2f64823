import RuleDiagram.Draft.Fault

/-!
# Snapshots of drafts

In a draft any value may stand where a register should be. A snapshot binds such registers, as long
as they have an order; registers that are the same count as one, which keeps its first form.

## Main definitions

* `Draft.Snapshot`: bindings in the order of their registers
* `Draft.Snapshot.get?`, `Draft.Snapshot.bind`, `Draft.Snapshot.ofList`
-/

namespace RuleDiagram

namespace Draft

/-- Registers bound to values, in the order of the registers. -/
structure Snapshot where
  bindings : List (Value × Value)
deriving DecidableEq

namespace Snapshot

def empty : Snapshot := ⟨[]⟩

instance : Canonical Snapshot :=
  ⟨fun s => ⟨s.bindings.map fun b => (canonical b.1, canonical b.2)⟩⟩

/-- The value a register is bound to. -/
def get? (s : Snapshot) (register : Value) : Option Value :=
  (s.bindings.find? fun b => decide (Same b.1 register)).map Prod.snd

/-- The register is bound to a value that is the same as the given one. -/
def holds (s : Snapshot) (register v : Value) : Bool :=
  (s.get? register).any fun w => decide (Same w v)

def registers (s : Snapshot) : List Value := s.bindings.map Prod.fst

/-- Bindings with a register bound or rebound to a value. -/
def put (bindings : List (Value × Value)) (register v : Value) : List (Value × Value) :=
  if bindings.any fun b => decide (Same b.1 register) then
    bindings.map fun b => (b.1, if Same b.1 register then v else b.2)
  else bindings ++ [(register, v)]

/-- The snapshot of bindings whose registers have an order. -/
def arrange (bindings : List (Value × Value)) : Except DraftFault Snapshot :=
  Snapshot.mk <$> arranged Prod.fst bindings

/-- The snapshot with a register bound to a value; the snapshot itself if the register already holds
the same value. -/
def bind (s : Snapshot) (register v : Value) : Except DraftFault Snapshot :=
  if s.holds register v then .ok s else arrange (put s.bindings register v)

/-- The snapshot of a list of bindings, of which later ones replace earlier ones. -/
def ofList (bindings : List (Item × Value)) : Except DraftFault Snapshot := do
  let keyed ← bindings.mapM fun b => do return (← b.1.key, b.2)
  arrange (keyed.foldl (fun bs b => put bs b.1 b.2) [])

/-- The snapshot with the values in their canonical form. -/
def plain (s : Snapshot) : Snapshot := ⟨s.bindings.map fun b => (b.1, canonical b.2)⟩

/-- The description of a snapshot. -/
def described (s : Snapshot) : String :=
  describedBindings (s.bindings.map fun b => (b.1.shown, b.2))

/-- A snapshot of integer registers. -/
def ofSnapshot (s : RuleDiagram.Snapshot) : Snapshot :=
  ⟨s.bindings.map fun b => (.int b.1, b.2)⟩

/-- The integer registers of a snapshot, with what they are bound to. -/
def integral (s : Snapshot) : RuleDiagram.Snapshot :=
  .ofList (s.bindings.filterMap fun b => b.1.integer?.map fun r => (r, b.2))

end Snapshot

end Draft

end RuleDiagram
