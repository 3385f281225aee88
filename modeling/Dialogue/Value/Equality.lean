import Dialogue.Number.Near
import Dialogue.Value

/-!
Equality of values. Numbers count as equal when they are near each other, sets and maps when they
have as many members and each member of the one is found in the other. Members of sets and keys of
maps are told apart by this equality.
-/

namespace Dialogue.Value

mutual

/-- Compares the first value, which is taken apart, with the second. With `asRight` the value taken
apart stands on the right: `matching false x y` decides `x == y` and `matching true x y` decides
`y == x`. -/
def matching : Value → Bool → Value → Bool
  | nil, _, nil => true
  | bool a, _, bool b => a == b
  | number a, _, number b => a.near b
  | string a, _, string b => a == b
  | enum a, _, enum b => a == b
  | list xs, asRight, list ys => itemsMatch xs asRight ys
  | set xs, asRight, set ys =>
    xs.length == ys.length &&
      (if asRight then ys.all (memberOf xs) else foundIn xs ys)
  | map xs, asRight, map ys =>
    xs.length == ys.length &&
      (if asRight then ys.all fun y => entryOf xs y.1 y.2 else entriesFoundIn xs ys)
  | _, _, _ => false
termination_by structural x => x

def itemsMatch : List Value → Bool → List Value → Bool
  | [], _, [] => true
  | x :: xs, asRight, y :: ys => matching x asRight y && itemsMatch xs asRight ys
  | _, _, _ => false
termination_by structural xs => xs

def memberOf : List Value → Value → Bool
  | [], _ => false
  | x :: xs, y => matching x false y || memberOf xs y
termination_by structural xs => xs

def foundIn : List Value → List Value → Bool
  | [], _ => true
  | x :: xs, ys => ys.any (fun y => matching x true y) && foundIn xs ys
termination_by structural xs => xs

def entryOf : List (Value × Value) → Value → Value → Bool
  | [], _, _ => false
  | (k, v) :: xs, key, value =>
    if matching k false key then matching v false value else entryOf xs key value
termination_by structural xs => xs

def entriesFoundIn : List (Value × Value) → List (Value × Value) → Bool
  | [], _ => true
  | (k, v) :: xs, ys =>
    (match ys.find? (fun y => matching k true y.1) with
      | some y => matching v true y.2
      | none => false) && entriesFoundIn xs ys
termination_by structural xs => xs

end

instance : BEq Value := ⟨fun x y => matching x false y⟩

end Dialogue.Value
