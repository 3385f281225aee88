import Dialogue.Value.Equality

namespace Dialogue.Value

def insertMember (members : List Value) (v : Value) : List Value :=
  if memberOf members v then members else members ++ [v]

def addMember (members : List Value) (v : Value) : Bool × List Value :=
  if memberOf members v then (false, members) else (true, members ++ [v])

def setOf (items : List Value) : List Value := items.foldl insertMember []

def lookup : List (Value × Value) → Value → Option Value
  | [], _ => none
  | (k, v) :: rest, key => if k == key then some v else lookup rest key

def insertEntry : List (Value × Value) → Value → Value → List (Value × Value)
  | [], key, value => [(key, value)]
  | (k, v) :: rest, key, value =>
    if k == key then (k, value) :: rest else (k, v) :: insertEntry rest key value

def putEntry : List (Value × Value) → Value → Value → Option Value × List (Value × Value)
  | [], key, value => (none, [(key, value)])
  | (k, v) :: rest, key, value =>
    if k == key then (some v, (k, value) :: rest)
    else
      let (old, put) := putEntry rest key value
      (old, (k, v) :: put)

def mapOf (entries : List (Value × Value)) : List (Value × Value) :=
  entries.foldl (fun done e => insertEntry done e.1 e.2) []

theorem addMember_eq (members : List Value) (v : Value) :
    addMember members v = (!memberOf members v, insertMember members v) := by
  unfold addMember insertMember
  cases memberOf members v <;> rfl

theorem putEntry_eq (entries : List (Value × Value)) (key value : Value) :
    putEntry entries key value = (lookup entries key, insertEntry entries key value) := by
  induction entries with
  | nil => rfl
  | cons e entries ih =>
    simp only [putEntry, lookup, insertEntry, ih]
    cases e.1 == key <;> rfl

end Dialogue.Value
