import Dialogue.Json

namespace Dialogue.Json

def get (j : Json) (key : String) : Json :=
  match j with
  | object members => (member? members key).getD null
  | _ => null

def has (j : Json) (key : String) : Bool :=
  match j with
  | object members => (member? members key).isSome
  | _ => false

def items : Json → List Json
  | array items => items
  | _ => []

def members : Json → List (String × Json)
  | object members => members
  | _ => []

def nth (j : Json) (i : Nat) : Json := j.items.getD i null

def natural : Json → Nat
  | number (.natural n) => n
  | _ => 0

def truth : Json → Bool
  | bool b => b
  | _ => false

def present : Json → Option Json
  | null => none
  | j => some j

end Dialogue.Json
