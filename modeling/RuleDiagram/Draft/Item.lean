import RuleDiagram.Value.Order

/-!
# Items of data

What stands in a draft where an index, a register, a term or a node should be. Of such an item
nothing is promised: it may be a value, a list or a record.

## Main definitions

* `Item`
* `Item.described`, `Item.shown`: an item in messages and within other text
* `Item.same`: items that count as one
-/

namespace RuleDiagram

/-- A value, a list of items, or a record of items in the order of their names. -/
inductive Item where
  | value (v : Value)
  | list (items : List Item)
  | record (fields : List (String × Item))
deriving Inhabited

namespace Item

/-- The absent value as an item. -/
def absent : Item := value .absent

/-- An integer as an item. -/
def int (n : Int) : Item := value (.int n)

/-- The item is the absent value. -/
def isAbsent : Item → Bool
  | value .absent => true
  | _ => false

mutual

/-- The description of an item. -/
def described : Item → String
  | value v => v.described
  | list items => "[" ++ ", ".intercalate (describedAll items) ++ "]"
  | record fields => "\x7b" ++ ", ".intercalate (describedFields fields) ++ "\x7d"

/-- The descriptions of items, in order. -/
def describedAll : List Item → List String
  | [] => []
  | x :: rest => x.described :: describedAll rest

/-- The descriptions of named items, in order. -/
def describedFields : List (String × Item) → List String
  | [] => []
  | (name, x) :: rest => (literal name ++ ": " ++ x.described) :: describedFields rest

end

/-- An item as it appears within other text. -/
def shown : Item → String
  | value v => v.shown
  | x => x.described

mutual

/-- Two items count as one: values that are the same, lists of such items, and records that have
such items by the same names. -/
def same : Item → Item → Bool
  | value v, value w => decide (Same v w)
  | list xs, list ys => sameAll xs ys
  | record fs, record gs => sameFields fs gs
  | _, _ => false

/-- Two lists of items agree item by item. -/
def sameAll : List Item → List Item → Bool
  | [], [] => true
  | x :: xs, y :: ys => x.same y && sameAll xs ys
  | _, _ => false

/-- Two lists of named items agree in names and items. -/
def sameFields : List (String × Item) → List (String × Item) → Bool
  | [], [] => true
  | (m, x) :: fs, (n, y) :: gs => decide (m = n) && x.same y && sameFields fs gs
  | _, _ => false

end

/-- The integer that an item is. -/
def integer? : Item → Option Int
  | value v => v.integer?
  | _ => none

/-- The amount that an item is. -/
def amount? : Item → Option Amount
  | value v => v.amount?
  | _ => none

/-- The integer that an item is, truth values not counted. -/
def int? : Item → Option Int
  | value (.int n) => some n
  | _ => none

/-- Strict order of items that are values. -/
def less? : Item → Item → Option Bool
  | value v, value w => v.less? w
  | _, _ => none

end Item

end RuleDiagram
