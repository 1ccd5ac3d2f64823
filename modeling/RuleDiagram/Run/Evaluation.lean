import RuleDiagram.Diagram.Basic
import RuleDiagram.Run.Propagation

/-!
# Evaluating a diagram

The root starts with the empty snapshot, and rounds carry snapshots along the edges. A round takes
only what came new to a node in the round before; the sets of snapshots that have come to a node and
left it never shrink. An evaluation ends when a round brings nothing new, and fails when it would
need more rounds than its limit allows.

## Main definitions

* `RoundLimit`: a positive number of rounds
* `Evaluation`: the sets that a finished evaluation has found
* `Diagram.evaluate`: evaluates a diagram on facts
* `RunFault`: why an evaluation fails
-/

namespace RuleDiagram

/-- Sets kept per node, in the order in which the nodes came up; no node comes up twice. -/
structure NodeTable (α : Type) where
  entries : List (Int × List α)
  nodup : (entries.map Prod.fst).Nodup

namespace NodeTable

variable {α : Type} [Canonical α] [DecidableEq α]

def empty : NodeTable α := ⟨[], List.nodup_nil⟩

/-- The table of one node. -/
def single (index : Int) (xs : List α) : NodeTable α := ⟨[(index, xs)], by simp⟩

/-- The set of a node, empty for a node without one. -/
def get (t : NodeTable α) (index : Int) : List α := (t.entries.lookup index).getD []

/-- The nodes that have a set. -/
def indices (t : NodeTable α) : List Int := t.entries.map Prod.fst

/-- The table with further elements in the set of a node. -/
def add (t : NodeTable α) (index : Int) (xs : List α) : NodeTable α :=
  if h : index ∈ t.indices then
    ⟨t.entries.map fun (i, ys) => (i, if i = index then ListSet.union ys xs else ys), by
      simpa [List.map_map, Function.comp_def] using t.nodup⟩
  else
    ⟨t.entries ++ [(index, ListSet.ofList xs)], by
      rw [List.map_append]
      exact List.nodup_append.2 ⟨t.nodup, by simp, by
        intro i hi j hj
        obtain rfl : j = index := by simpa using hj
        exact fun hij => h (hij ▸ hi)⟩⟩

/-- The table with the elements of another one added to the sets of their nodes. -/
def addAll (t u : NodeTable α) : NodeTable α := u.entries.foldl (fun t (i, xs) => t.add i xs) t

/-- All elements of all sets. -/
def union (t : NodeTable α) : List α :=
  t.entries.foldl (fun xs (_, more) => ListSet.union xs more) []

/-- The table of those sets that have elements outside another table's set for the same node,
reduced to these elements. -/
def diff (t u : NodeTable α) : NodeTable α :=
  let rest := t.entries.map fun (i, xs) => (i, ListSet.diff xs (u.get i))
  ⟨rest.filter fun (_, xs) => decide (xs ≠ []),
    (List.filter_sublist.map Prod.fst).nodup (by
      simpa [rest, List.map_map, Function.comp_def] using t.nodup)⟩

end NodeTable

/-- How many rounds an evaluation may take: at least one. -/
structure RoundLimit where
  rounds : Nat
  rounds_pos : 0 < rounds
deriving DecidableEq

namespace RoundLimit

/-- The limit where none is given. -/
def standard : RoundLimit := ⟨512, by decide⟩

instance : Inhabited RoundLimit := ⟨standard⟩

/-- The limit of the given number of rounds. -/
def ofInt? (n : Int) : Option RoundLimit :=
  if h : 0 < n then some ⟨n.toNat, by omega⟩ else none

/-- What is said of a number that is no limit. -/
def complaint : String := "max_rounds must be at least 1."

end RoundLimit

/-- Why an evaluation fails. -/
inductive RunFault where
  /-- More rounds would be needed than the limit allows. -/
  | limitReached (limit : RoundLimit)
  /-- An edge leads to an index that names no node. -/
  | noSuchNode (index : Int)
  | emission (f : EmissionFault)

/-- What is said of an evaluation that would need more rounds than its limit allows. -/
def RoundLimit.message (l : RoundLimit) : String :=
  "Evaluation did not reach a fixpoint within " ++ numeral l.rounds ++ " rounds."

/-- The sets that an evaluation has found: the facts it ran on, what has come to the nodes, what has
left the branches, and what the leaves have emitted. -/
structure Evaluation where
  facts : List Fact
  incoming : NodeTable Snapshot
  matched : NodeTable Snapshot
  refuted : NodeTable Snapshot
  emitted : NodeTable Fact
  rounds : Nat

namespace Evaluation

/-- All emitted facts. -/
def outputs (e : Evaluation) : List Fact := e.emitted.union

/-- The snapshots that have come to a node. -/
def snapshots (e : Evaluation) (index : Int) : List Snapshot := e.incoming.get index

/-- The facts that a leaf has emitted. -/
def emittedBy (e : Evaluation) (index : Int) : List Fact := e.emitted.get index

/-- What has left a branch. -/
def outgoing (e : Evaluation) (index : Int) : Delivery := ⟨e.matched.get index, e.refuted.get index⟩

/-- The evaluation before its first round. -/
def start (d : Diagram) (facts : List Fact) : Evaluation :=
  ⟨ListSet.ofList facts, .single d.root [.empty], .empty, .empty, .empty, 0⟩

end Evaluation

/-- Snapshots sent to a node, where there is a node to send them to. -/
def NodeTable.send (t : NodeTable Snapshot) (target : Option Int) (snapshots : List Snapshot) :
    NodeTable Snapshot :=
  match target with
  | none => t
  | some index => if snapshots = [] then t else t.add index snapshots

/-- A round under way: the evaluation so far, and what has been sent to the nodes. -/
structure Round where
  evaluation : Evaluation
  sent : NodeTable Snapshot

namespace Round

/-- A node takes the snapshots that came new to it. -/
def visit (d : Diagram) (r : Round) (index : Int) (fresh : List Snapshot) : Except RunFault Round :=
  let e := r.evaluation
  match d.node? index with
  | none => .error (.noSuchNode index)
  | some (.leaf p) => do
    let facts ← (fresh.mapM fun s => instantiate p s).mapError .emission
    return { r with evaluation := { e with emitted := e.emitted.add index facts } }
  | some (.branch p m f) =>
    let out := propagate p e.facts fresh
    .ok
      { evaluation :=
          { e with
            matched := e.matched.add index out.onMatch
            refuted := e.refuted.add index out.onRefute }
        sent := (r.sent.send m out.onMatch).send f out.onRefute }

/-- The nodes that were sent something new, each with what is new. -/
def news (r : Round) : NodeTable Snapshot := r.sent.diff r.evaluation.incoming

/-- The evaluation after the round. -/
def close (r : Round) : Evaluation :=
  { r.evaluation with
    incoming := r.evaluation.incoming.addAll r.news
    rounds := r.evaluation.rounds + 1 }

end Round

/-- One round, in which every node takes what is new to it. -/
def Evaluation.round (d : Diagram) (e : Evaluation) (news : NodeTable Snapshot) :
    Except RunFault Round :=
  news.entries.foldlM (fun r (i, fresh) => r.visit d i fresh) ⟨e, .empty⟩

/-- Rounds until nothing is new, at most the given number of them. -/
def Evaluation.proceed (d : Diagram) (limit : RoundLimit) (remaining : Nat) (e : Evaluation)
    (news : NodeTable Snapshot) : Except RunFault Evaluation :=
  match news.entries, remaining with
  | [], _ => .ok e
  | _ :: _, 0 => .error (.limitReached limit)
  | _ :: _, remaining + 1 => do
    let r ← e.round d news
    r.close.proceed d limit remaining r.news

/-- **The evaluation of a diagram on facts.** -/
def Diagram.evaluate (d : Diagram) (facts : List Fact) (limit : RoundLimit) :
    Except RunFault Evaluation :=
  let start := Evaluation.start d facts
  start.proceed d limit limit.rounds start.incoming

end RuleDiagram
