import RuleDiagram.Draft.Query
import RuleDiagram.Draft.Snapshot

/-!
# Running drafts

A draft that is a diagram is evaluated as one. Any other draft is evaluated by the same rules, node
by node and fact by fact, and the first stray part that is met ends the evaluation.

## Main definitions

* `RoundLimit.ofItem`: the limit that an item sets
* `Draft.unify`, `Draft.propagate`, `Draft.instantiate`: single steps
* `Draft.Evaluation`: the sets that a finished evaluation has found
* `Draft.evaluate`: the evaluation of a draft on facts
-/

namespace RuleDiagram

/-- The limit that an item sets, where part of a round counts as a round. -/
def RoundLimit.ofItem (x : Item) : Except DraftFault RoundLimit :=
  match x.less? (.int 1), x.amount?.bind (RoundLimit.ofInt? ·.ceiling) with
  | some true, _ => .error .noLimit
  | some false, some l => .ok l
  | _, _ => .error .unsuited

namespace Draft

/-! ## Single steps -/

/-- One term meets one value. -/
def Term.unify (t : Term) (v : Value) (s : Snapshot) : Except DraftFault (Option Snapshot) :=
  match t with
  | constant w => .ok (if Same w v then some s else none)
  | reference r => do return if s.holds (← r.key) v then some s else none
  | free r => do return some (← s.bind (← r.key) v)
  | other _ => .error .partless

/-- Terms meet values from left to right, as long as there are both. -/
def unify : List Term → List Value → Snapshot → Except DraftFault (Option Snapshot)
  | t :: terms, v :: values, s => do
    match ← t.unify v s with
    | some s => unify terms values s
    | none => return none
  | _, _, s => .ok (some s)

/-- The value that a term of a template stands for. -/
def Term.instantiate (t : Term) (s : Snapshot) : Except DraftFault Value :=
  match t with
  | constant v => .ok v
  | reference r | free r => do
    match s.get? (← r.key) with
    | some v => return v
    | none => throw (.unbound r)
  | other _ => .error .partless

/-- The fact that a template gives under a snapshot. -/
def instantiate (p : Pattern) (s : Snapshot) : Except DraftFault Fact := do
  let values ← p.terms.mapM fun t => t.instantiate s
  match p.predicate with
  | none => throw .partless
  | some q => (Fact.make q values).mapError .arity

/-- What leaves a branch: the snapshots on its match edge and those on its refute edge. -/
structure Delivery where
  onMatch : List Snapshot
  onRefute : List Snapshot

/-- A delivery with what one snapshot and one fact deliver. -/
def Delivery.meet (p : Pattern) (out : Delivery) (s : Snapshot) (f : Fact) :
    Except DraftFault Delivery := do
  match ← unify p.terms f.values s with
  | some t => return { out with onMatch := out.onMatch ++ [t] }
  | none => return { out with onRefute := out.onRefute ++ [s] }

/-- What a branch with the given pattern delivers, snapshot by snapshot and for each snapshot fact
by fact. -/
def propagate (p : Pattern) (facts : List Fact) (snapshots : List Snapshot) :
    Except DraftFault Delivery :=
  match p.predicate with
  | none => .ok ⟨snapshots, snapshots⟩
  | some q =>
    let facts := candidates q facts
    (snapshots.flatMap fun s => facts.map fun f => (s, f)).foldlM
      (fun out (s, f) => out.meet p s f) ⟨[], []⟩

/-! ## Evaluations -/

/-- Sets kept per index, in the order in which the indices came up. -/
abbrev Table (α : Type) := List (Value × List α)

namespace Table

variable {α : Type} [Canonical α] [DecidableEq α]

/-- The set of an index, empty for an index without one. -/
def get (t : Table α) (index : Value) : List α :=
  ((t.find? fun e => decide (Same e.1 index)).map Prod.snd).getD []

/-- The table with further elements in the set of an index. -/
def add (t : Table α) (index : Value) (xs : List α) : Table α :=
  if t.any fun e => decide (Same e.1 index) then
    t.map fun (i, ys) => (i, if Same i index then ListSet.union ys xs else ys)
  else t ++ [(index, ListSet.ofList xs)]

end Table

/-- The sets that an evaluation has found: the facts it ran on, what has come to the nodes, what has
left the branches, and what the leaves have emitted. -/
structure Evaluation where
  facts : List Fact
  incoming : Table Snapshot
  matched : Table Snapshot
  refuted : Table Snapshot
  emitted : Table Fact
  rounds : Nat

namespace Evaluation

/-- All emitted facts. -/
def outputs (e : Evaluation) : List Fact := ListSet.ofList (e.emitted.flatMap Prod.snd)

/-- The snapshots that have come to a node. -/
def snapshots (e : Evaluation) (index : Int) : List Snapshot := Table.get e.incoming (.int index)

/-- The facts that a leaf has emitted. -/
def emittedBy (e : Evaluation) (index : Int) : List Fact := Table.get e.emitted (.int index)

/-- What has left a branch. -/
def outgoing (e : Evaluation) (index : Int) : Delivery :=
  ⟨Table.get e.matched (.int index), Table.get e.refuted (.int index)⟩

/-- The indices that snapshots have come to, in order. -/
def reached (e : Evaluation) : List Value :=
  let indices := e.incoming.map Prod.fst
  (Value.arrange? id indices).getD indices

/-- The evaluation of a diagram. -/
def ofEvaluation (e : RuleDiagram.Evaluation) : Evaluation :=
  let table (t : NodeTable RuleDiagram.Snapshot) : Table Snapshot :=
    t.entries.map fun (i, ss) => (.int i, ss.map .ofSnapshot)
  ⟨e.facts, table e.incoming, table e.matched, table e.refuted,
    e.emitted.entries.map fun (i, fs) => (.int i, fs), e.rounds⟩

/-- An evaluation whose indices and registers are integers as that of a diagram. -/
def integral (e : Evaluation) : RuleDiagram.Evaluation :=
  let entries {α β : Type} [Canonical β] [DecidableEq β] (f : α → β) (t : Table α) : NodeTable β :=
    (t.filterMap fun (i, xs) => i.integer?.map fun i => (i, xs.map f)).foldl
      (fun t (i, xs) => t.add i xs) .empty
  ⟨e.facts, entries Snapshot.integral e.incoming, entries Snapshot.integral e.matched,
    entries Snapshot.integral e.refuted, entries id e.emitted, e.rounds⟩

end Evaluation

/-- A round under way: the evaluation so far, and what has been sent to the nodes. -/
structure Round where
  evaluation : Evaluation
  sent : Table Snapshot

namespace Round

/-- Snapshots sent along an edge that has a target. -/
def send (r : Round) (target : Item) (snapshots : List Snapshot) : Except DraftFault Round := do
  if target.isAbsent ∨ snapshots = [] then return r
  return { r with sent := Table.add r.sent (← target.key) snapshots }

/-- A node takes the snapshots that came new to it. -/
def visit (d : Draft) (r : Round) (index : Value) (fresh : List Snapshot) :
    Except DraftFault Round := do
  let e := r.evaluation
  match ← d.node (.value index) with
  | .other _ => throw .partless
  | .leaf p =>
    let facts ← fresh.mapM fun s => instantiate p s
    return { r with evaluation := { e with emitted := Table.add e.emitted index facts } }
  | .branch p m f =>
    let out ← propagate p e.facts fresh
    let e :=
      { e with
        matched := Table.add e.matched index out.onMatch
        refuted := Table.add e.refuted index out.onRefute }
    (← { r with evaluation := e }.send m out.onMatch).send f out.onRefute

/-- The indices to which something new was sent, each with what is new. -/
def news (r : Round) : Table Snapshot :=
  (r.sent.map fun (i, ss) => (i, ListSet.diff ss (Table.get r.evaluation.incoming i))).filter
    fun (_, ss) => decide (ss ≠ [])

/-- The evaluation after the round. -/
def close (r : Round) : Evaluation :=
  { r.evaluation with
    incoming := r.news.foldl (fun t (i, ss) => Table.add t i ss) r.evaluation.incoming
    rounds := r.evaluation.rounds + 1 }

end Round

/-- Rounds until nothing is new, at most the given number of them. -/
def proceed (d : Draft) (limit : RoundLimit) (remaining : Nat) (e : Evaluation)
    (news : Table Snapshot) : Except DraftFault Evaluation :=
  match news, remaining with
  | [], _ => .ok e
  | _ :: _, 0 => .error (.limitReached limit)
  | _ :: _, remaining + 1 => do
    let r ← news.foldlM (fun (r : Round) (i, fresh) => r.visit d i fresh) ⟨e, []⟩
    d.proceed limit remaining r.close r.news

/-- **The evaluation of a draft on facts.** -/
def evaluate (d : Draft) (facts : List Fact) (limit : RoundLimit) :
    Except DraftFault Evaluation :=
  match d.diagram? with
  | some e => ((e.evaluate facts limit).map .ofEvaluation).mapError .ofRun
  | none => do
    let start : Table Snapshot := [(← d.root.key, [.empty])]
    d.proceed limit limit.rounds ⟨ListSet.ofList facts, start, [], [], [], 0⟩ start

end Draft

end RuleDiagram
