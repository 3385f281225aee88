import Dialogue.Json.Document
import Dialogue.Value.Collection

/-!
Values as JSON. Scalars and lists have their like in JSON; sets, maps and enumeration members are
objects with fixed keys. Numbers that are not finite have no JSON form. Snapshots are values by name
in this form.
-/

namespace Dialogue.Value

def nonFinite (n : Number) : ValueError :=
  .unsupportedJson ("non-finite number " ++ Layout.plain.text n)

mutual

def toJson : Value → Except ValueError Json
  | nil => .ok .null
  | bool b => .ok (.bool b)
  | number n => if n.isFinite then .ok (.number (.real n)) else .error (nonFinite n)
  | string s => .ok (.string s)
  | list items => (itemsToJson items).map .array
  | set members => (itemsToJson members).map fun js => .object [("set", .array js)]
  | map entries => (entriesToJson entries).map fun js => .object [("map", .array js)]
  | enum e => .ok (.object [("enum", .string e.type), ("value", .string e.member)])
termination_by structural v => v

def itemsToJson : List Value → Except ValueError (List Json)
  | [] => .ok []
  | v :: rest =>
    match toJson v with
    | .ok j => (itemsToJson rest).map (j :: ·)
    | .error e => .error e
termination_by structural vs => vs

def entriesToJson : List (Value × Value) → Except ValueError (List Json)
  | [] => .ok []
  | (k, v) :: rest =>
    match toJson k with
    | .ok key =>
      match toJson v with
      | .ok value => (entriesToJson rest).map (.array [key, value] :: ·)
      | .error e => .error e
    | .error e => .error e
termination_by structural es => es

end

mutual

def ofJson : Json → Except ValueError Value
  | .null => .ok nil
  | .bool b => .ok (bool b)
  | .number n => .ok (number n.toNumber)
  | .string s => .ok (string s)
  | .array items => (itemsOfJson items).map list
  | .object [("enum", .string type), ("value", .string member)] => .ok (enum ⟨type, member⟩)
  | .object [("set", .array items)] => (itemsOfJson items).map fun vs => set (setOf vs)
  | .object [("map", .array pairs)] =>
    (entriesOfJson (.unsupportedJson (Json.text (.object [("map", .array pairs)])))
      [] pairs).map map
  | j => .error (.unsupportedJson j.text)
termination_by structural j => j

def itemsOfJson : List Json → Except ValueError (List Value)
  | [] => .ok []
  | j :: rest =>
    match ofJson j with
    | .ok v => (itemsOfJson rest).map (v :: ·)
    | .error e => .error e
termination_by structural js => js

/-- Adds the pairs to the entries before; `refusal` is the error for an item that is no pair. -/
def entriesOfJson (refusal : ValueError) (before : List (Value × Value)) :
    List Json → Except ValueError (List (Value × Value))
  | [] => .ok before
  | .array [k, v] :: rest =>
    match ofJson k with
    | .ok key =>
      match ofJson v with
      | .ok value => entriesOfJson refusal (insertEntry before key value) rest
      | .error e => .error e
    | .error e => .error e
  | _ => .error refusal
termination_by structural js => js

end

end Dialogue.Value

namespace Dialogue

abbrev Snapshot := Table Json

namespace Snapshot

def toJson (s : Snapshot) : Json := .object s.entries

def text (s : Snapshot) : String := s.toJson.text

def ofText? (text : String) : Option Snapshot :=
  match Json.parse? text with
  | some (.object members) => some (Table.ofList members)
  | _ => none

def save (s : Snapshot) (name : String) (v : Value) : Except ValueError Snapshot :=
  v.toJson.map (s.insert name)

def value? (s : Snapshot) (name : String) : Option (Except ValueError Value) :=
  (s.get? name).map Value.ofJson

def amend (s t : Snapshot) : Snapshot := s.merge t

def same (s t : Snapshot) : Bool := s.toJson.same t.toJson

end Snapshot

end Dialogue
