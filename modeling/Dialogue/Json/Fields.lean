import Dialogue.Json.Document

namespace Dialogue.Json

abbrev Fields := List (Option Written)

def Written.field? (members : List (String × Written)) (name : String) : Option (Option Written) :=
  match members.filter fun m => m.1 == name with
  | [] => some none
  | [m] => some (some m.2)
  | _ => none

def Written.fields? (names : List String) : Written → Option Fields
  | .object members => do
    let members ← members.mapM fun m => m.1.map (·, m.2)
    names.mapM (Written.field? members)
  | .array items =>
    if items.length ≤ names.length then
      some (items.map some ++ List.replicate (names.length - items.length) none)
    else none
  | _ => none

def Written.string? : Written → Option String
  | .string s => s
  | _ => none

def Written.bool? : Written → Option Bool
  | .bool b => some b
  | _ => none

def Written.strings? : Written → Option (List String)
  | .array items => items.mapM Written.string?
  | _ => none

def Written.natural? : Written → Option Nat
  | .number l =>
    match l.numeral? with
    | some (.natural n) => some n
    | _ => none
  | _ => none

end Dialogue.Json
