import Dialogue.Value.Collection
import Dialogue.Value.Domain
import Dialogue.Value.Text

/-!
Variables that the host shares among conversations. Each watcher of a variable is told its changes;
who a watcher is, and how it is told, is up to the user of the store.
-/

namespace Dialogue

structure Watch (ω : Type) where
  id : Nat
  name : String
  watcher : ω

structure VariableStore (ω : Type) where
  values : Table Value := .empty
  domains : EnumDomains := .empty
  /-- In the order of their ids. -/
  watches : List (Watch ω) := []
  nextId : Nat := 0

namespace VariableStore

variable {ω : Type}

def get? (s : VariableStore ω) (name : String) : Option Value := s.values.get? name

def names (s : VariableStore ω) : List String := s.values.keys

def insert (s : VariableStore ω) (name : String) (v : Value) : VariableStore ω :=
  { s with values := s.values.insert name v }

def declareEnum (s : VariableStore ω) (d : EnumDomain) : VariableStore ω :=
  { s with domains := s.domains.declare d }

/-- Changes a variable and lists the watches to be told. Nothing is listed, and nothing changes,
when the value equals the present one. -/
def set (s : VariableStore ω) (name : String) (v : Value) :
    Except ValueError (Option (VariableStore ω × List (Watch ω))) := do
  s.domains.checkAssignment ((s.get? name).getD .nil) v
  if (s.get? name).any (· == v) then return none
  else return some (s.insert name v, s.watches.filter (·.name == name))

def watch (s : VariableStore ω) (name : String) (watcher : ω) : Nat × VariableStore ω :=
  (s.nextId, { s with watches := s.watches ++ [⟨s.nextId, name, watcher⟩], nextId := s.nextId + 1 })

def isWatched (s : VariableStore ω) (id : Nat) : Bool := s.watches.any (·.id == id)

def unwatch (s : VariableStore ω) (id : Nat) : VariableStore ω :=
  { s with watches := s.watches.filter (·.id != id) }

def diagnostic (s : VariableStore ω) : String :=
  "MemoryVariableStore \x7b values: " ++
    Text.listed "\x7b" "\x7d"
      (s.values.entries.map fun e => Text.quote e.1 ++ ": " ++ e.2.diagnostic) ++
    ", watchers: " ++ toString s.watches.length ++ " \x7d"

end VariableStore

end Dialogue
