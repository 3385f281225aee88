import Dialogue.Value.Collection
import Dialogue.Wire.Cursor

/-!
The binary form of values: a tag byte, then the payload. Collections and strings state their size
first. Reading refuses deep nesting, oversized sets and maps, and repeated members or keys.
Buffers hold values in this form, which a producer hands out and takes back at most once.
-/

namespace Dialogue

def maxDepth : Nat := 64

def maxUniqueEntries : Nat := 4096

namespace Wire

def encodeCount (n : Nat) : List UInt8 := littleEndian 4 n

def encodeString (s : String) : List UInt8 := encodeCount s.utf8ByteSize ++ utf8 s

mutual

def encode : Value → List UInt8
  | .nil => [Tag.nil.toByte]
  | .bool b => [Tag.bool.toByte, if b then 1 else 0]
  | .number n => Tag.number.toByte :: littleEndian 8 n.bits.toNat
  | .string s => Tag.string.toByte :: encodeString s
  | .list items => Tag.list.toByte :: (encodeCount items.length ++ encodeItems items)
  | .set members => Tag.set.toByte :: (encodeCount members.length ++ encodeItems members)
  | .map entries => Tag.map.toByte :: (encodeCount entries.length ++ encodeEntries entries)
  | .enum e => Tag.enum.toByte :: (encodeString e.type ++ encodeString e.member)
termination_by structural v => v

def encodeItems : List Value → List UInt8
  | [] => []
  | v :: rest => encode v ++ encodeItems rest
termination_by structural vs => vs

def encodeEntries : List (Value × Value) → List UInt8
  | [] => []
  | (k, v) :: rest => encode k ++ (encode v ++ encodeEntries rest)
termination_by structural es => es

end

def readString : Read String := do Read.string (← Read.u32)

def readBool : Read Bool := do
  let offset ← Read.position
  match ← Read.u8 with
  | 0 => return false
  | 1 => return true
  | byte => throw (.invalidBool byte offset)

/-- The size of a set or map, at least `entrySize` bytes each. -/
def readUniqueCount (entrySize : Nat) : Read Nat := do
  let offset ← Read.position
  let count ← Read.u32
  let limit := min maxUniqueEntries ((← Read.remaining) / entrySize)
  if limit < count then throw (.tooManyEntries count limit offset)
  return count

def readItems (read : Read Value) : Nat → Read (List Value)
  | 0 => return []
  | count + 1 => do
    let v ← read
    return v :: (← readItems read count)

def readMembers (read : Read Value) (before : List Value) : Nat → Read (List Value)
  | 0 => return before
  | count + 1 => do
    let offset ← Read.position
    let v ← read
    if Value.memberOf before v then throw (.duplicateMember offset)
    readMembers read (before ++ [v]) count

def readEntries (read : Read Value) (before : List (Value × Value)) :
    Nat → Read (List (Value × Value))
  | 0 => return before
  | count + 1 => do
    let offset ← Read.position
    let k ← read
    let v ← read
    if (Value.lookup before k).isSome then throw (.duplicateKey offset)
    readEntries read (before ++ [(k, v)]) count

def readPayload (read : Read Value) : Tag → Read Value
  | .nil => return .nil
  | .bool => return .bool (← readBool)
  | .number => return .number ⟨(← Read.u64).toUInt64⟩
  | .string => return .string (← readString)
  | .list => do return .list (← readItems read (← Read.u32))
  | .set => do return .set (← readMembers read [] (← readUniqueCount 1))
  | .map => do return .map (← readEntries read [] (← readUniqueCount 2))
  | .enum => do
    let type ← readString
    return .enum ⟨type, ← readString⟩

/-- Reads a value that nests collections less deep than the given number of levels. -/
def readNested : Nat → Read Value
  | 0 => throw (.tooDeep maxDepth)
  | level + 1 => do
    let offset ← Read.position
    let byte ← Read.u8
    match Tag.ofByte? byte with
    | some tag => readPayload (readNested level) tag
    | none => throw (.invalidTag byte offset)

def read : Read Value := readNested (maxDepth + 1)

def decode (bytes : Bytes) : Except DecodeError Value :=
  match read (.start bytes) with
  | .ok v c => if c.isAtEnd then .ok v else .error (.trailingBytes c.remaining)
  | .error e _ => .error e

end Wire

def Value.toBytes (v : Value) : Bytes := (Wire.encode v).toArray

end Dialogue

namespace Dialogue

structure Buffer where
  held : Option Bytes
deriving Inhabited

namespace Buffer

def ofBytes (bytes : Bytes) : Buffer := ⟨some bytes⟩

def ofValue (v : Value) : Buffer := ofBytes v.toBytes

def bytes (b : Buffer) : Bytes := b.held.getD #[]

def tag? (b : Buffer) : Option Tag := b.bytes[0]?.bind Tag.ofByte?

def decode (b : Buffer) : Except DecodeError Value := Wire.decode b.bytes

def isReleased (b : Buffer) : Bool := b.held.isNone

def release (b : Buffer) : Buffer × Option Bytes := (⟨none⟩, b.held)

def diagnostic (b : Buffer) : String :=
  let tag := match b.tag? with
    | some tag => "Some(" ++ tag.name ++ ")"
    | none => "None"
  "ValueBuffer \x7b tag: " ++ tag ++ ", len: " ++ toString b.bytes.size ++ ", released: " ++
    (if b.isReleased then "true" else "false") ++ " \x7d"

end Buffer

end Dialogue
