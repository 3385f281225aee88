import Dialogue.Container

/-!
Putting containers together. Jumps go to labels, which are bound to places in the code before or
after they are used.
-/

namespace Dialogue

structure Builder where
  version : FormatVersion := .newest
  globals : List GlobalSymbol := []
  boughs : List Bough := []
  code : List UInt8 := []
  /-- Where each label is bound, if it is. -/
  labels : List (Option Nat) := []
  /-- Places in the code that receive the place of a label. -/
  fixups : List (Nat × Nat) := []
  error : Option FormatError := none
deriving Inhabited

namespace Builder

def declare (b : Builder) (name : String) (isExtern isMutable : Bool) : Builder :=
  { b with globals := b.globals ++ [⟨name, b.globals.length.toUInt32, isExtern, isMutable⟩] }

def scriptVariable (b : Builder) (name : String) : Builder := b.declare name false true

def constant (b : Builder) (name : String) : Builder := b.declare name false false

def externVariable (b : Builder) (name : String) : Builder := b.declare name true true

def bough (b : Builder) (name : String) : Builder :=
  { b with boughs := b.boughs ++ [⟨name, b.code.length.toUInt32⟩] }

def label (b : Builder) : Builder := { b with labels := b.labels ++ [none] }

def bind (b : Builder) (label : Nat) : Builder :=
  { b with labels := b.labels.set label (some b.code.length) }

def fail (b : Builder) (e : FormatError) : Builder := { b with error := b.error.or (some e) }

def append (b : Builder) (bytes : List UInt8) : Builder := { b with code := b.code ++ bytes }

def emit (b : Builder) (i : Instruction) : Except FormatError Unit × Builder :=
  (i.encode.map fun _ => (), b.append i.write.bytes)

/-- Writes an instruction, or nothing when it has an oversized operand. -/
def push (b : Builder) (i : Instruction) : Builder :=
  match i.encode with
  | .ok bytes => b.append bytes
  | .error e => b.fail e

def line (b : Builder) (speaker content : String) (tags : List String) : Builder :=
  b.push (.line speaker content tags)

def set (b : Builder) (global : UInt32) (value : Value) : Builder := b.push (.set global value)

def call (b : Builder) (function : UInt32) (args : List Value) (dest : Option UInt32) : Builder :=
  b.push (.call function args dest)

def stop (b : Builder) : Builder := b.push .stop

def placeholder (b : Builder) (label : Nat) : Builder :=
  { b with fixups := b.fixups ++ [(b.code.length, label)], code := b.code ++ [0, 0, 0, 0] }

def jump (b : Builder) (label : Nat) : Builder := (b.append [Opcode.jump.toByte]).placeholder label

def jumpIfFalse (b : Builder) (global : UInt32) (label : Nat) : Builder :=
  (b.append (Opcode.jumpIfFalse.toByte :: littleEndian 4 global.toNat)).placeholder label

/-- Writes options without tags, up to the first that is too long. -/
def appendOptions (b : Builder) : List (String × Nat) → Builder
  | [] => b
  | (content, label) :: rest =>
    match (Writing.sized 2 content).result with
    | .ok bytes => ((b.append (bytes ++ [0])).placeholder label).appendOptions rest
    | .error e => b.fail e

def choices (b : Builder) (options : List (String × Nat)) : Builder :=
  if options.length < 256 then
    (b.append [Opcode.choices.toByte, options.length.toUInt8]).appendOptions options
  else b.fail (.oversized (toString options.length ++ " choices"))

def patch (code : List UInt8) (place : Nat) (bytes : List UInt8) : List UInt8 :=
  code.take place ++ (bytes ++ code.drop (place + bytes.length))

def linked (labels : List (Option Nat)) (code : List UInt8) :
    List (Nat × Nat) → Except FormatError (List UInt8)
  | [] => .ok code
  | (place, label) :: rest =>
    match (labels[label]?).join with
    | some target => linked labels (patch code place (littleEndian 4 target)) rest
    | none => .error (.unboundLabel label)

def writeGlobal (g : GlobalSymbol) : Writing :=
  .sized 1 g.name ++ (.word g.index ++
    .ofBytes [if g.isExtern then 1 else 0, if g.isMutable then 1 else 0])

def writeBough (version : FormatVersion) (b : Bough) : Writing :=
  .sized (Container.boughNameWidth version) b.name ++ .word b.entry

def writeTable {α : Type} (write : α → Writing) (xs : List α) : Writing :=
  .ofBytes (littleEndian 8 xs.length) ++ .concat (xs.map write)

def header (version : FormatVersion) (globalsSize boughsSize : Nat) : List UInt8 :=
  magic ++ (littleEndian 2 version.toNat ++ (littleEndian 2 0 ++
    match version with
    | .sequential => []
    | .offset =>
      littleEndian 8 (headerSize + 24) ++ (littleEndian 8 (headerSize + 24 + globalsSize) ++
        littleEndian 8 (headerSize + 24 + globalsSize + boughsSize))))

def build (b : Builder) : Except FormatError Bytes := do
  if let some e := b.error then .error e
  let code ← linked b.labels b.code b.fixups
  let globals ← (writeTable writeGlobal b.globals).result
  let boughs ← (writeTable (writeBough b.version) b.boughs).result
  return (header b.version globals.length boughs.length ++ (globals ++ (boughs ++ code))).toArray

end Builder

end Dialogue
