import Herald.Binary64

namespace Herald

/-- A JSON number is whole and between `-2 ^ 63` and `2 ^ 64 - 1`, or a double. -/
inductive Json.Number
  | int (value : Int)
  | double (value : Binary64)
deriving DecidableEq, Repr

/-- A JSON value. The members of an object stand in the order in which they are written. -/
inductive Json
  | null
  | bool (value : Bool)
  | num (value : Json.Number)
  | str (value : String)
  | arr (elements : List Json)
  | obj (members : List (String × Json))
deriving Repr

namespace Json

/-- The members of an object in ascending order of their keys, each key once. -/
abbrev Members := List (String × Json)

def Members.insert (key : String) (value : Json) : Members → Members
  | [] => [(key, value)]
  | (k, v) :: ms =>
    if key = k then (key, value) :: ms
    else if key < k then (key, value) :: (k, v) :: ms
    else (k, v) :: insert key value ms

def Members.get? (ms : Members) (key : String) : Option Json :=
  (ms.find? (·.1 == key)).map (·.2)

def ofNat (n : Nat) : Json := .num (.int n)

/-- The member with a key, of those that an object writes down. There is no answer if it is
written more than once. -/
def member? {α : Type} (key : String) (ms : List (String × α)) : Option (Option α) :=
  match ms.filter (·.1 == key) with
  | [] => some none
  | [m] => some (some m.2)
  | _ => none

def bool? : Json → Option Bool
  | bool b => some b
  | _ => none

def text? : Json → Option String
  | str s => some s
  | _ => none

def nat? (bound : Nat) : Json → Option Nat
  | num (.int i) => if 0 ≤ i ∧ i < bound then some i.toNat else none
  | _ => none

def optional? {α : Type} (read : Json → Option α) : Option Json → Option (Option α)
  | none | some null => some none
  | some j => (read j).map some

end Json

end Herald
