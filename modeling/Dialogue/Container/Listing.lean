import Dialogue.Container
import Dialogue.Json
import Dialogue.Text

namespace Dialogue

def FormatVersion.name : FormatVersion → String
  | sequential => "sequential"
  | offset => "offset"

/-- Instructions with their offsets, and the offset and the error where they end too early. -/
structure Sweep where
  instructions : List (Nat × Instruction)
  failure : Option (Nat × FormatError)

namespace Container

def sweepFrom (c : Container) : Nat → Nat → Sweep
  | 0, _ => ⟨[], none⟩
  | count + 1, ip =>
    if c.code.size ≤ ip then ⟨[], none⟩
    else match c.instruction ip with
      | .error e => ⟨[], some (ip, e)⟩
      | .ok (i, next) =>
        let rest := c.sweepFrom count next
        ⟨(ip, i) :: rest.instructions, rest.failure⟩

/-- Reads the instructions up to the end of the code; each takes a byte at least. -/
def sweep (c : Container) : Sweep := c.sweepFrom c.code.size 0

def instructionLines (c : Container) (ip : Nat) (i : Instruction) : List String :=
  (match c.boughs.find? fun b => b.entry.toNat == ip with
    | some b => [b.name ++ ":"]
    | none => []) ++
    ["  " ++ Text.alignRight 6 (toString ip) ++ "  " ++ i.diagnostic]

def disassembly (c : Container) : List String :=
  "" :: "Code:" :: c.sweep.instructions.flatMap fun (ip, i) => c.instructionLines ip i

def globalLine (g : GlobalSymbol) : String :=
  let flags := (if g.isExtern then ["extern"] else []) ++ (if g.isMutable then [] else ["const"])
  "  " ++ Text.alignRight 4 (toString g.index.toNat) ++ "  " ++ g.name ++ " " ++
    " ".intercalate flags

def boughLine (b : Bough) : String :=
  "  " ++ Text.alignRight 6 (toString b.entry.toNat) ++ "  " ++ b.name

def tableLines (c : Container) : List String :=
  ["Version:     " ++ toString c.version.toNat ++ " (" ++ c.version.name ++ ")",
    "Code:        " ++ toString c.code.size ++ " bytes", "", "Globals:"] ++
    (c.globals.map globalLine ++ ("" :: "Boughs:" :: c.boughs.map boughLine))

def tables (c : Container) : Json :=
  .object [("version", .nat c.version.toNat), ("layout", .string c.version.name),
    ("code_len", .nat c.code.size),
    ("globals", .array (c.globals.map fun g =>
      .object [("name", .string g.name), ("index", .nat g.index.toNat),
        ("is_extern", .bool g.isExtern), ("is_mutable", .bool g.isMutable)])),
    ("boughs", .array (c.boughs.map fun b =>
      .object [("name", .string b.name), ("entry", .nat b.entry.toNat)])),
    ("externs", .array (c.externs.map .string))]

end Container

end Dialogue
