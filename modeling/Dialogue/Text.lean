import Dialogue.Text.Extender
import Dialogue.Text.Ranges
import Dialogue.Text.Unprinted

/-!
Text: bytes as hexadecimal digits, blanks, and quoting for diagnostics, in which quotes, backslashes
and characters without a visible form of their own are escaped.
-/

namespace Dialogue.Hex

def digit (n : Nat) : Char := (Nat.toDigits 16 n).headD '0'

def digitValue (c : Char) : Nat :=
  if c.isDigit then c.toNat - '0'.toNat else c.toLower.toNat - 'a'.toNat + 10

def value (digits : List Char) : Nat := digits.foldl (fun n c => n * 16 + digitValue c) 0

def encode (bytes : List UInt8) : String :=
  String.ofList (bytes.flatMap fun b => [digit (b.toNat / 16), digit (b.toNat % 16)])

def decodeOnto (done : List UInt8) : List Char → List UInt8
  | a :: b :: rest => decodeOnto ((value [a, b]).toUInt8 :: done) rest
  | _ => done.reverse

def decode (text : String) : List UInt8 := decodeOnto [] text.toList

end Dialogue.Hex

namespace Dialogue.Text

def isBlank (c : Char) : Bool :=
  let n := c.toNat
  (9 ≤ n && n ≤ 13) || n == 32 || n == 0x85 || n == 0xa0 || n == 0x1680 ||
    (0x2000 ≤ n && n ≤ 0x200a) || n == 0x2028 || n == 0x2029 || n == 0x202f || n == 0x205f ||
    n == 0x3000

def trimBlanks (s : String) : String :=
  String.ofList (((s.toList.dropWhile isBlank).reverse.dropWhile isBlank).reverse)

def alignRight (width : Nat) (s : String) : String := "".pushn ' ' (width - s.length) ++ s

/-- The characters with the property Default_Ignorable_Code_Point of Unicode 17. Letters are among
them, the fillers of Hangul syllables. -/
def ignorable : Ranges where
  ranges :=
   [(0xad, 0xad), (0x34f, 0x34f), (0x61c, 0x61c), (0x115f, 0x1160), (0x17b4, 0x17b5),
    (0x180b, 0x180f), (0x200b, 0x200f), (0x202a, 0x202e), (0x2060, 0x206f), (0x3164, 0x3164),
    (0xfe00, 0xfe0f), (0xfeff, 0xfeff), (0xffa0, 0xffa0), (0xfff0, 0xfff8), (0x1bca0, 0x1bca3),
    (0x1d173, 0x1d17a), (0xe0000, 0xe0fff)]
  ascending := by decide +kernel

def isInvisible (c : Char) : Bool :=
  isExtender c || ignorable.contains c || unprinted.contains c

def hexDigits (n : Nat) : List Char := Nat.toDigits 16 n

def quoteChar (c : Char) : List Char :=
  if c = '"' then ['\\', '"']
  else if c = '\\' then ['\\', '\\']
  else if c = '\n' then ['\\', 'n']
  else if c = '\r' then ['\\', 'r']
  else if c = '\t' then ['\\', 't']
  else if c.toNat = 0 then ['\\', '0']
  else if isInvisible c then ['\\', 'u', '\x7b'] ++ hexDigits c.toNat ++ ['\x7d']
  else [c]

def quote (s : String) : String :=
  String.ofList (['"'] ++ s.toList.flatMap quoteChar ++ ['"'])

def listed (opening closing : String) (items : List String) : String :=
  opening ++ ", ".intercalate items ++ closing

end Dialogue.Text
