import Dialogue.Wire.Cursor

namespace Dialogue

def magic : List UInt8 := [0x54, 0x4f, 0x50, 0x49]

def headerSize : Nat := 8

/-- In a sequential container the tables follow each other, in the offset layout the header says
where they are. -/
inductive FormatVersion where
  | sequential
  | offset
deriving DecidableEq, Inhabited

namespace FormatVersion

def newest : FormatVersion := offset

def toNat : FormatVersion → Nat
  | sequential => 1
  | offset => 2

def ofNat? : Nat → Option FormatVersion
  | 1 => some sequential
  | 2 => some offset
  | _ => none

end FormatVersion

inductive Section where
  | header
  | globalTable
  | boughTable
  | code
deriving DecidableEq

def Section.name : Section → String
  | header => "header"
  | globalTable => "global table"
  | boughTable => "bough table"
  | code => "code section"

inductive FormatError where
  | invalidMagic
  | unsupportedVersion (version : Nat)
  | malformed (part : Section) (cause : DecodeError)
  | offsetOutOfRange (part : Section) (offset size : Nat)
  | invalidFlag (name flag : String) (byte : UInt8)
  | duplicateSymbol (name : String)
  | duplicateGlobalIndex (index : UInt32)
  | duplicateBough (name : String)
  | entryOutOfRange (bough : String) (entry : UInt32) (codeSize : Nat)
  | invalidOpcode (opcode : UInt8) (ip : Nat)
  | oversized (text : String)
  | unboundLabel (label : Nat)
deriving DecidableEq

namespace FormatError

def code : FormatError → String
  | invalidMagic => "InvalidMagic"
  | unsupportedVersion _ => "UnsupportedVersion"
  | malformed _ cause => "Malformed/" ++ cause.code
  | offsetOutOfRange .. => "OffsetOutOfRange"
  | invalidFlag .. => "InvalidFlag"
  | duplicateSymbol _ => "DuplicateSymbol"
  | duplicateGlobalIndex _ => "DuplicateGlobalIndex"
  | duplicateBough _ => "DuplicateBough"
  | entryOutOfRange .. => "EntryOutOfRange"
  | invalidOpcode .. => "InvalidOpcode"
  | oversized _ => "Oversized"
  | unboundLabel _ => "UnboundLabel"

def message : FormatError → String
  | invalidMagic => "Invalid magic bytes"
  | unsupportedVersion version => "Unsupported version: " ++ toString version
  | malformed part cause => "Malformed " ++ part.name ++ ": " ++ cause.message
  | offsetOutOfRange part offset size =>
    part.name ++ " offset " ++ toString offset ++ " is outside the " ++ toString size ++
      "-byte buffer"
  | invalidFlag name flag byte =>
    "Invalid " ++ flag ++ " flag " ++ byteText byte ++ " on global `" ++ name ++ "`"
  | duplicateSymbol name => "Duplicate global `" ++ name ++ "`"
  | duplicateGlobalIndex index => "Duplicate global index " ++ toString index.toNat
  | duplicateBough name => "Duplicate bough `" ++ name ++ "`"
  | entryOutOfRange bough entry codeSize =>
    "Bough `" ++ bough ++ "` entry " ++ toString entry.toNat ++ " is outside the " ++
      toString codeSize ++ "-byte code section"
  | invalidOpcode opcode ip => "Invalid opcode " ++ byteText opcode ++ " at " ++ toString ip
  | oversized text => "`" ++ text ++ "` exceeds its length prefix"
  | unboundLabel label => "Label " ++ toString label ++ " was never bound"

def causes : FormatError → List String
  | malformed _ cause => [cause.message]
  | _ => []

def isTruncated : FormatError → Bool
  | malformed _ (.unexpectedEnd ..) => true
  | offsetOutOfRange .. => true
  | _ => false

end FormatError

abbrev FormatRead := EStateM FormatError Cursor

def Section.read {α : Type} (part : Section) (r : Read α) : FormatRead α := fun c =>
  match r c with
  | .ok x c => .ok x c
  | .error e c => .error (.malformed part e) c

structure Writing where
  bytes : List UInt8
  error : Option FormatError

namespace Writing

def empty : Writing := ⟨[], none⟩

def ofBytes (bytes : List UInt8) : Writing := ⟨bytes, none⟩

def failed (e : FormatError) : Writing := ⟨[], some e⟩

def append (w v : Writing) : Writing :=
  match w.error with
  | some _ => w
  | none => ⟨w.bytes ++ v.bytes, v.error⟩

instance : Append Writing := ⟨append⟩

def concat (ws : List Writing) : Writing := ws.foldr append empty

def result (w : Writing) : Except FormatError (List UInt8) :=
  match w.error with
  | some e => .error e
  | none => .ok w.bytes

def word (w : UInt32) : Writing := ofBytes (littleEndian 4 w.toNat)

def sized (width : Nat) (s : String) : Writing :=
  if s.utf8ByteSize < Nat.pow 256 width then ofBytes (littleEndian width s.utf8ByteSize ++ utf8 s)
  else failed (.oversized s)

def count (n : Nat) : Writing :=
  if n < 256 then ofBytes [n.toUInt8] else failed (.oversized (toString n ++ " operands"))

end Writing

end Dialogue
