import Dialogue.Instruction
import Dialogue.Table

/-!
Containers of compiled dialogue: a table of globals, a table of boughs, which are named entries into
the code, and the code.
-/

namespace Dialogue

structure GlobalSymbol where
  name : String
  index : UInt32
  isExtern : Bool
  isMutable : Bool
deriving DecidableEq, Inhabited

structure Bough where
  name : String
  entry : UInt32
deriving DecidableEq, Inhabited

structure Container where
  version : FormatVersion
  globals : List GlobalSymbol
  boughs : List Bough
  code : Bytes
  size : Nat
deriving Inhabited

namespace Container

def readFlag (name flag : String) : FormatRead Bool := do
  match ← Section.globalTable.read Read.u8 with
  | 0 => return false
  | 1 => return true
  | byte => throw (.invalidFlag name flag byte)

def readGlobal : FormatRead GlobalSymbol := do
  let name ← Section.globalTable.read (do Read.string (← Read.u8).toNat)
  let index ← Section.globalTable.read Instruction.readWord
  let isExtern ← readFlag name "extern"
  let isMutable ← readFlag name "mutable"
  return ⟨name, index, isExtern, isMutable⟩

def boughNameWidth : FormatVersion → Nat
  | .sequential => 1
  | .offset => 2

def readBough (version : FormatVersion) : Read Bough := do
  let name ← Read.string (← Read.word (boughNameWidth version))
  return ⟨name, ← Instruction.readWord⟩

def readTable {α : Type} (read : FormatRead α) : Nat → FormatRead (List α)
  | 0 => return []
  | count + 1 => do
    let x ← read
    return x :: (← readTable read count)

def readGlobals : FormatRead (List GlobalSymbol) := do
  readTable readGlobal (← Section.globalTable.read Read.u64)

def readBoughs (version : FormatVersion) : FormatRead (List Bough) := do
  readTable (Section.boughTable.read (readBough version)) (← Section.boughTable.read Read.u64)

def readOffset (part : Section) : FormatRead Nat := do
  let offset ← Section.header.read Read.u64
  let size := (← get).bytes.size
  if headerSize ≤ offset ∧ offset ≤ size then return offset
  else throw (.offsetOutOfRange part offset size)

def readVersion : FormatRead FormatVersion := do
  let opening ← Section.header.read (Read.take 4)
  if opening.toList ≠ magic then throw .invalidMagic
  let number ← Section.header.read Read.u16
  let some version := FormatVersion.ofNat? number | throw (.unsupportedVersion number)
  let _ ← Section.header.read Read.u16
  return version

def readTables (version : FormatVersion) : FormatRead (List GlobalSymbol × List Bough) := do
  match version with
  | .sequential =>
    let globals ← readGlobals
    return (globals, ← readBoughs version)
  | .offset =>
    let globalsAt ← readOffset .globalTable
    let boughsAt ← readOffset .boughTable
    let codeAt ← readOffset .code
    Section.globalTable.read (Read.seek globalsAt)
    let globals ← readGlobals
    Section.boughTable.read (Read.seek boughsAt)
    let boughs ← readBoughs version
    Section.code.read (Read.seek codeAt)
    return (globals, boughs)

def checkGlobals (before : List GlobalSymbol) : List GlobalSymbol → Except FormatError Unit
  | [] => .ok ()
  | g :: rest =>
    if before.any fun h => h.name == g.name then .error (.duplicateSymbol g.name)
    else if before.any fun h => h.index == g.index then .error (.duplicateGlobalIndex g.index)
    else checkGlobals (g :: before) rest

/-- Boughs enter the code or stand at its end, and their names are unique. -/
def checkBoughs (codeSize : Nat) (before : List Bough) : List Bough → Except FormatError Unit
  | [] => .ok ()
  | b :: rest =>
    if codeSize < b.entry.toNat then .error (.entryOutOfRange b.name b.entry codeSize)
    else if before.any fun a => a.name == b.name then .error (.duplicateBough b.name)
    else checkBoughs codeSize (b :: before) rest

def read : FormatRead Container := do
  let version ← readVersion
  let (globals, boughs) ← readTables version
  let c ← get
  return ⟨version, globals, boughs, c.bytes.extract c.position, c.bytes.size⟩

def parse (bytes : Bytes) : Except FormatError Container :=
  match read (.start bytes) with
  | .error e _ => .error e
  | .ok c _ => do
    checkGlobals [] c.globals
    checkBoughs c.code.size [] c.boughs
    return c

def global? (c : Container) (name : String) : Option GlobalSymbol :=
  c.globals.find? (·.name == name)

def bough? (c : Container) (name : String) : Option Bough := c.boughs.find? (·.name == name)

def boughNames (c : Container) : List String := c.boughs.map (·.name)

def externs (c : Container) : List String :=
  (Table.ofList ((c.globals.filter (·.isExtern)).map fun g => (g.name, ()))).keys

def slotCount (c : Container) : Nat :=
  c.globals.foldl (fun n g => max n (g.index.toNat + 1)) 0

def instruction (c : Container) (ip : Nat) : Except FormatError (Instruction × Nat) :=
  Instruction.decode c.code ip

end Container

end Dialogue
