import Dialogue.Text

namespace Dialogue

inductive DecodeError where
  | unexpectedEnd (offset needed : Nat)
  | invalidTag (tag : UInt8) (offset : Nat)
  | invalidBool (byte : UInt8) (offset : Nat)
  | invalidUtf8 (offset : Nat)
  | tooDeep (limit : Nat)
  | duplicateMember (offset : Nat)
  | duplicateKey (offset : Nat)
  | tooManyEntries (count limit offset : Nat)
  | trailingBytes (count : Nat)
deriving DecidableEq

def byteText (byte : UInt8) : String :=
  "0x" ++ Hex.encode [byte]

def DecodeError.code : DecodeError → String
  | unexpectedEnd .. => "UnexpectedEnd"
  | invalidTag .. => "InvalidTag"
  | invalidBool .. => "InvalidBool"
  | invalidUtf8 _ => "InvalidUtf8"
  | tooDeep _ => "TooDeep"
  | duplicateMember _ => "DuplicateMember"
  | duplicateKey _ => "DuplicateKey"
  | tooManyEntries .. => "TooManyEntries"
  | trailingBytes _ => "TrailingBytes"

def DecodeError.message : DecodeError → String
  | unexpectedEnd offset needed =>
    "unexpected end of input at offset " ++ toString offset ++
      " (needed " ++ toString needed ++ " more bytes)"
  | invalidTag tag offset =>
    "invalid value tag " ++ byteText tag ++ " at offset " ++ toString offset
  | invalidBool byte offset =>
    "invalid boolean byte " ++ byteText byte ++ " at offset " ++ toString offset
  | invalidUtf8 offset => "invalid UTF-8 at offset " ++ toString offset
  | tooDeep limit => "value nesting exceeds " ++ toString limit ++ " levels"
  | duplicateMember offset => "duplicate set member at offset " ++ toString offset
  | duplicateKey offset => "duplicate map key at offset " ++ toString offset
  | tooManyEntries count limit offset =>
    "collection of " ++ toString count ++ " entries at offset " ++ toString offset ++
      " exceeds the limit of " ++ toString limit
  | trailingBytes count => toString count ++ " trailing bytes after value"

abbrev Bytes := Array UInt8

structure Cursor where
  bytes : Bytes
  position : Nat

abbrev Read := EStateM DecodeError Cursor

def ofLittleEndian : List UInt8 → Nat
  | [] => 0
  | b :: rest => b.toNat + 256 * ofLittleEndian rest

def littleEndian : Nat → Nat → List UInt8
  | 0, _ => []
  | count + 1, n => n.toUInt8 :: littleEndian count (n / 256)

def utf8 (s : String) : List UInt8 := s.toByteArray.data.toList

def ofUtf8? (bytes : Bytes) : Option String := String.fromUTF8? ⟨bytes⟩

namespace Cursor

def start (bytes : Bytes) : Cursor := ⟨bytes, 0⟩

def remaining (c : Cursor) : Nat := c.bytes.size - c.position

def isAtEnd (c : Cursor) : Bool := c.remaining == 0

def rest (c : Cursor) : List UInt8 := c.bytes.toList.drop c.position

end Cursor

namespace Read

def position : Read Nat := return (← get).position

def remaining : Read Nat := return (← get).remaining

def seek (position : Nat) : Read Unit := do
  let c ← get
  if position ≤ c.bytes.size then set { c with position := position }
  else throw (.unexpectedEnd c.bytes.size (position - c.bytes.size))

def take (count : Nat) : Read Bytes := do
  let c ← get
  if count ≤ c.remaining then
    set { c with position := c.position + count }
    return c.bytes.extract c.position (c.position + count)
  else throw (.unexpectedEnd c.position (count - c.remaining))

def word (count : Nat) : Read Nat := return ofLittleEndian (← take count).toList

def u8 : Read UInt8 := return (← word 1).toUInt8

def u16 : Read Nat := word 2

def u32 : Read Nat := word 4

def u64 : Read Nat := word 8

def string (count : Nat) : Read String := do
  let offset ← position
  match ofUtf8? (← take count) with
  | some s => return s
  | none => throw (.invalidUtf8 offset)

end Read

def Cursor.at? (bytes : Bytes) (position : Nat) : Except DecodeError Cursor :=
  match Read.seek position (.start bytes) with
  | .ok _ c => .ok c
  | .error e _ => .error e

end Dialogue
