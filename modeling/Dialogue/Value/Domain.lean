import Dialogue.Json.Fields
import Dialogue.Value

/-!
Declared enumerations. The members of a sequential domain are stages: a variable that holds one may
only stay or move on.
-/

namespace Dialogue

structure EnumDomain where
  name : String
  sequential : Bool
  members : List String
deriving DecidableEq, Inhabited

namespace EnumDomain

def index? (d : EnumDomain) (member : String) : Option Nat :=
  d.members.findIdx? (· == member)

def check (d : EnumDomain) (e : EnumValue) : Except ValueError Nat :=
  if e.type ≠ d.name then .error (.wrongEnumType d.name e.type)
  else match d.index? e.member with
    | some i => .ok i
    | none => .error (.notInDomain d.name e.member)

def value (d : EnumDomain) (member : String) : Except ValueError EnumValue :=
  (d.check ⟨d.name, member⟩).map fun _ => ⟨d.name, member⟩

def checkTransition (d : EnumDomain) (current : Option EnumValue) (next : EnumValue) :
    Except ValueError Unit := do
  let i ← d.check next
  if d.sequential then
    match current with
    | none => return ()
    | some current =>
      if current.type ≠ d.name then return ()
      else match d.index? current.member with
        | some j =>
          if i < j then .error (.sequenceRegression d.name current.member next.member)
          else return ()
        | none => return ()
  else return ()

def toJson (d : EnumDomain) : Json :=
  .object [("name", .string d.name), ("sequential", .bool d.sequential),
    ("values", .array (d.members.map .string))]

def ofText? (text : String) : Option EnumDomain := do
  match ← (← Json.written? text).fields? ["name", "sequential", "values"] with
  | [some name, sequential, some members] =>
    let sequential ← match sequential with
      | some w => w.bool?
      | none => some false
    return ⟨← name.string?, sequential, ← members.strings?⟩
  | _ => none

end EnumDomain

abbrev EnumDomains := Table EnumDomain

namespace EnumDomains

def declare (ds : EnumDomains) (d : EnumDomain) : EnumDomains := ds.insert d.name d

/-- Whether `next` may be assigned over `current`. Values of undeclared enumerations and all other
values may. -/
def checkAssignment (ds : EnumDomains) (current next : Value) : Except ValueError Unit :=
  match next with
  | .enum e =>
    match ds.get? e.type with
    | some d =>
      d.checkTransition (match current with | .enum c => some c | _ => none) e
    | none => .ok ()
  | _ => .ok ()

end EnumDomains

end Dialogue
