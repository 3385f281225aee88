import Dialogue.Container.Format
import Dialogue.Value.Buffer
import Dialogue.Value.Text

namespace Dialogue

inductive Opcode where
  | stop
  | line
  | choices
  | jump
  | jumpIfFalse
  | set
  | call
deriving DecidableEq

namespace Opcode

def toByte : Opcode → UInt8
  | stop => 0
  | line => 1
  | choices => 2
  | jump => 3
  | jumpIfFalse => 4
  | set => 5
  | call => 6

def ofByte? (byte : UInt8) : Option Opcode :=
  [stop, line, choices, jump, jumpIfFalse, set, call].find? fun code => code.toByte == byte

theorem ofByte?_toByte (code : Opcode) : ofByte? code.toByte = some code := by
  cases code <;> rfl

end Opcode

structure ChoiceOption where
  content : String
  tags : List String
  target : UInt32
deriving Inhabited

inductive Instruction where
  | stop
  | line (speaker content : String) (tags : List String)
  | choices (options : List ChoiceOption)
  | jump (target : UInt32)
  | jumpIfFalse (global target : UInt32)
  | set (global : UInt32) (value : Value)
  | call (function : UInt32) (args : List Value) (dest : Option UInt32)
deriving Inhabited

def discard : UInt32 := 0xffffffff

namespace Instruction

def opcode : Instruction → Opcode
  | stop => .stop
  | line .. => .line
  | choices _ => .choices
  | jump _ => .jump
  | jumpIfFalse .. => .jumpIfFalse
  | set .. => .set
  | call .. => .call

def writeTags (tags : List String) : Writing :=
  .count tags.length ++ .concat (tags.map (.sized 2))

def writeOption (o : ChoiceOption) : Writing :=
  .sized 2 o.content ++ (writeTags o.tags ++ .word o.target)

def writeOperands : Instruction → Writing
  | stop => .empty
  | line speaker content tags => .sized 2 speaker ++ (.sized 2 content ++ writeTags tags)
  | choices options => .count options.length ++ .concat (options.map writeOption)
  | jump target => .word target
  | jumpIfFalse global target => .word global ++ .word target
  | set global value => .word global ++ .ofBytes (Wire.encode value)
  | call function args dest =>
    .word function ++ (.count args.length ++
      (.ofBytes (Wire.encodeItems args) ++ .word (dest.getD discard)))

/-- The binary form; an oversized operand ends it. -/
def write (i : Instruction) : Writing := .ofBytes [i.opcode.toByte] ++ i.writeOperands

def encode (i : Instruction) : Except FormatError (List UInt8) := i.write.result

def readWord : Read UInt32 := return (← Read.u32).toUInt32

def readString : Read String := do Read.string (← Read.u16)

def readMany {α : Type} (read : Read α) : Nat → Read (List α)
  | 0 => return []
  | count + 1 => do
    let x ← read
    return x :: (← readMany read count)

def readTags : Read (List String) := do readMany readString (← Read.u8).toNat

def readOption : Read ChoiceOption := do
  let content ← readString
  let tags ← readTags
  return ⟨content, tags, ← readWord⟩

def readOperands : Opcode → Read Instruction
  | .stop => return stop
  | .line => do
    let speaker ← readString
    let content ← readString
    return line speaker content (← readTags)
  | .choices => do return choices (← readMany readOption (← Read.u8).toNat)
  | .jump => return jump (← readWord)
  | .jumpIfFalse => do
    let global ← readWord
    return jumpIfFalse global (← readWord)
  | .set => do
    let global ← readWord
    return set global (← Wire.read)
  | .call => do
    let function ← readWord
    let args ← readMany Wire.read (← Read.u8).toNat
    let dest ← readWord
    return call function args (if dest = discard then none else some dest)

def read (ip : Nat) : FormatRead Instruction := do
  Section.code.read (Read.seek ip)
  let byte ← Section.code.read Read.u8
  match Opcode.ofByte? byte with
  | some code => Section.code.read (readOperands code)
  | none => throw (.invalidOpcode byte ip)

/-- The instruction at an offset of the code, and the offset after it. Offsets are words, so that the
one after it is wrong behind 4 GiB. -/
def decode (code : Bytes) (ip : Nat) : Except FormatError (Instruction × Nat) :=
  match read ip (.start code) with
  | .ok i c => .ok (i, c.position.toUInt32.toNat)
  | .error e _ => .error e

open Text in
def diagnostic : Instruction → String
  | stop => "End"
  | line speaker content tags =>
    "Line \x7b speaker: " ++ quote speaker ++ ", content: " ++ quote content ++ ", tags: " ++
      listed "[" "]" (tags.map quote) ++ " \x7d"
  | choices options =>
    let option (o : ChoiceOption) :=
      "ChoiceOption \x7b content: " ++ quote o.content ++ ", tags: " ++
        listed "[" "]" (o.tags.map quote) ++ ", target: " ++ toString o.target.toNat ++ " \x7d"
    "Choices \x7b options: " ++ listed "[" "]" (options.map option) ++ " \x7d"
  | jump target => "Jump \x7b target: " ++ toString target.toNat ++ " \x7d"
  | jumpIfFalse global target =>
    "JumpIfFalse \x7b global: " ++ toString global.toNat ++ ", target: " ++
      toString target.toNat ++ " \x7d"
  | set global value =>
    "Set \x7b global: " ++ toString global.toNat ++ ", value: " ++ value.diagnostic ++ " \x7d"
  | call function args dest =>
    let dest := match dest with
      | some dest => "Some(" ++ toString dest.toNat ++ ")"
      | none => "None"
    "Call \x7b function: " ++ toString function.toNat ++ ", args: " ++
      listed "[" "]" (args.map Value.diagnostic) ++ ", dest: " ++ dest ++ " \x7d"

end Instruction

end Dialogue
