import RuleDiagram.Text.Blank
import RuleDiagram.Text.Identifier
import RuleDiagram.Text.Literal

/-!
# Predicates and their registry

A predicate is a name with a number of arguments. A registry is the ordered table of the predicates
that a vocabulary declares; no two of them share a name, and the place of a predicate in the table
is its code.

## Main definitions

* `Predicate`: a name with an arity
* `Registry`: predicates in order of registration, with distinct names
* `Registry.add`, `Registry.extend`, `Registry.ofList`: registration
* `Registry.find?`, `Registry.has`, `Registry.code?`: lookups
-/

namespace RuleDiagram

/-- A predicate: a name and the number of its arguments. -/
structure Predicate where
  name : String
  arity : Int
deriving DecidableEq, Inhabited

namespace Predicate

/-- Name and arity, separated by a slash. -/
def shown (p : Predicate) : String := p.name ++ "/" ++ integerText p.arity

/-- The description of a predicate as a record. -/
def described (p : Predicate) : String :=
  "Predicate(name=" ++ literal p.name ++ ", arity=" ++ integerText p.arity ++ ")"

end Predicate

/-- Why a predicate cannot be registered. -/
inductive RegistryFault where
  | notIdentifier (name : String)
  | negativeArity (name : String)
  | arityConflict (name : String) (registered : Int)
deriving DecidableEq

namespace RegistryFault

/-- The fault in words. -/
def message : RegistryFault → String
  | notIdentifier name => "Predicate name " ++ literal name ++ " must be an identifier."
  | negativeArity name => "Predicate " ++ literal name ++ " has a negative arity."
  | arityConflict name registered =>
    "Predicate '" ++ name ++ "' is already registered with arity " ++ integerText registered ++ "."

end RegistryFault

/-- A table of predicates, in order of registration and with distinct names. -/
structure Registry where
  predicates : List Predicate
  names_nodup : (predicates.map Predicate.name).Nodup

namespace Registry

def empty : Registry := ⟨[], List.nodup_nil⟩

instance : Inhabited Registry := ⟨empty⟩

def size (r : Registry) : Nat := r.predicates.length

/-- The names in order of registration. -/
def names (r : Registry) : List String := r.predicates.map Predicate.name

/-- The predicate registered under a name. -/
def find? (r : Registry) (name : String) : Option Predicate :=
  r.predicates.find? fun p => decide (p.name = name)

/-- The predicate is registered. -/
def has (r : Registry) (p : Predicate) : Bool := decide (r.find? p.name = some p)

/-- The code of a registered predicate: its place in the order of registration. -/
def code? (r : Registry) (p : Predicate) : Option Nat :=
  r.predicates.findIdx? fun q => decide (q = p)

/-- The registered predicates with a given arity. -/
def withArity (r : Registry) (arity : Int) : List Predicate :=
  r.predicates.filter fun p => decide (p.arity = arity)

theorem name_notMem_of_find?_eq_none {r : Registry} {name : String} (h : r.find? name = none) :
    name ∉ r.predicates.map Predicate.name := by
  intro hmem
  obtain ⟨p, hp, rfl⟩ := List.mem_map.1 hmem
  simpa using List.find?_eq_none.1 h p hp

/-- Registers one more predicate. Its name, blanks at the ends aside, must be an identifier and its
arity must not be negative; a registered predicate may be registered again, but its name not with
another arity. -/
def add (r : Registry) (p : Predicate) : Except RegistryFault Registry :=
  if !isIdentifier (trimBlanks p.name) then .error (.notIdentifier p.name)
  else if p.arity < 0 then .error (.negativeArity p.name)
  else
    match h : r.find? p.name with
    | some q => if q = p then .ok r else .error (.arityConflict p.name q.arity)
    | none =>
      .ok ⟨r.predicates ++ [p], by
        rw [List.map_append]
        exact List.nodup_append.2 ⟨r.names_nodup, by simp, by
          intro a ha b hb
          obtain rfl : b = p.name := by simpa using hb
          exact fun hab => name_notMem_of_find?_eq_none h (hab ▸ ha)⟩⟩

/-- Registers predicates in order. -/
def extend (r : Registry) (ps : List Predicate) : Except RegistryFault Registry := ps.foldlM add r

/-- The registry of a list of predicates. -/
def ofList (ps : List Predicate) : Except RegistryFault Registry := empty.extend ps

/-- The description of a registry. -/
def described (r : Registry) : String :=
  "PredicateRegistry([" ++ ", ".intercalate (r.predicates.map Predicate.shown) ++ "])"

end Registry

end RuleDiagram
