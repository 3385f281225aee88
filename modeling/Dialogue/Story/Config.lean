import Dialogue.Json.Fields
import Dialogue.Story.Error

namespace Dialogue

structure Config where
  bough : String := "main"
  tags : List String := []
  severity : Option Severity := none
  maxSlices : Option Nat := none
deriving DecidableEq, Inhabited

namespace Config

def hasTag (c : Config) (tag : String) : Bool := c.tags.contains tag

open Json in
/-- A severity by its name, or as an object with the name as its only key and null as its value. -/
def severityOf? : Written → Option Severity
  | .string (some s) => Severity.ofName? s
  | .object [(some s, .null)] => Severity.ofName? s
  | _ => none

open Json in
def optional? {α : Type} (read : Written → Option α) : Option Written → Option (Option α)
  | none => some none
  | some .null => some none
  | some w => (read w).map some

open Json in
def ofText? (text : String) : Option Config := do
  match ← (← written? text).fields? ["bough", "tags", "log_severity", "max_slices"] with
  | [bough, tags, severity, maxSlices] =>
    let bough ← match bough with
      | some w => w.string?
      | none => some "main"
    let tags ← match tags with
      | some w => w.strings?
      | none => some []
    return ⟨bough, tags, ← optional? severityOf? severity, ← optional? Written.natural? maxSlices⟩
  | _ => none

def load (read : String → Except FileError Bytes) (path : String) : Except StoryError Config :=
  match fileText (read path) with
  | .error e => .error (.file path e)
  | .ok text =>
    match ofText? text with
    | some c => .ok c
    | none => .error .json

def toJson (c : Config) : Json :=
  .object [("bough", .string c.bough), ("tags", .array (c.tags.map .string)),
    ("log_severity", match c.severity with
      | some s => .string s.name
      | none => .null),
    ("max_slices", match c.maxSlices with
      | some n => .nat n
      | none => .null)]

end Config

end Dialogue
