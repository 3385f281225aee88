import Dialogue.Number

namespace Dialogue

inductive Tag where
  | nil
  | bool
  | number
  | string
  | list
  | set
  | map
  | enum
deriving DecidableEq, Repr

namespace Tag

def name : Tag → String
  | nil => "Nil"
  | bool => "Bool"
  | number => "Number"
  | string => "String"
  | list => "List"
  | set => "Set"
  | map => "Map"
  | enum => "Enum"

def toByte : Tag → UInt8
  | nil => 0
  | bool => 1
  | number => 2
  | string => 3
  | list => 4
  | set => 5
  | map => 6
  | enum => 7

def ofByte? (byte : UInt8) : Option Tag :=
  [nil, bool, number, string, list, set, map, enum].find? fun tag => tag.toByte == byte

theorem ofByte?_toByte (tag : Tag) : ofByte? tag.toByte = some tag := by
  cases tag <;> rfl

end Tag

structure EnumValue where
  type : String
  member : String
deriving DecidableEq, Inhabited

def EnumValue.text (e : EnumValue) : String := e.type ++ "." ++ e.member

inductive Value where
  | nil
  | bool (b : Bool)
  | number (n : Number)
  | string (s : String)
  | list (items : List Value)
  | set (members : List Value)
  | map (entries : List (Value × Value))
  | enum (e : EnumValue)
deriving Inhabited

inductive ValueError where
  | tagMismatch (expected actual : Tag)
  | notInDomain (type member : String)
  | wrongEnumType (expected actual : String)
  | sequenceRegression (type current next : String)
  | unsupportedJson (text : String)
deriving DecidableEq

def ValueError.code : ValueError → String
  | tagMismatch .. => "TagMismatch"
  | notInDomain .. => "NotInDomain"
  | wrongEnumType .. => "WrongEnumType"
  | sequenceRegression .. => "SequenceRegression"
  | unsupportedJson _ => "UnsupportedJson"

def ValueError.message : ValueError → String
  | tagMismatch expected actual => "value " ++ actual.name ++ " cannot be used as " ++ expected.name
  | notInDomain type member => "`" ++ member ++ "` is not a member of enum " ++ type
  | wrongEnumType expected actual =>
    "enum " ++ expected ++ " cannot hold a value of enum " ++ actual
  | sequenceRegression type current next =>
    "sequential enum " ++ type ++ " cannot move from `" ++ current ++ "` back to `" ++ next ++ "`"
  | unsupportedJson text => "unsupported JSON value: " ++ text

namespace Value

def tag : Value → Tag
  | nil => .nil
  | bool _ => .bool
  | number _ => .number
  | string _ => .string
  | list _ => .list
  | set _ => .set
  | map _ => .map
  | enum _ => .enum

def isNil : Value → Bool
  | nil => true
  | _ => false

def isTruthy : Value → Bool
  | nil => false
  | bool b => b
  | _ => true

def mismatch (v : Value) (expected : Tag) : ValueError := .tagMismatch expected v.tag

def asBool : Value → Except ValueError Bool
  | bool b => .ok b
  | v => .error (v.mismatch .bool)

def asNumber : Value → Except ValueError Number
  | number n => .ok n
  | v => .error (v.mismatch .number)

def asInt32 (v : Value) : Except ValueError Int := v.asNumber.map Number.toInt32

def asString : Value → Except ValueError String
  | string s => .ok s
  | v => .error (v.mismatch .string)

def asList : Value → Except ValueError (List Value)
  | list items => .ok items
  | v => .error (v.mismatch .list)

def asSet : Value → Except ValueError (List Value)
  | set members => .ok members
  | v => .error (v.mismatch .set)

def asMap : Value → Except ValueError (List (Value × Value))
  | map entries => .ok entries
  | v => .error (v.mismatch .map)

def asEnum : Value → Except ValueError EnumValue
  | enum e => .ok e
  | v => .error (v.mismatch .enum)

def ofInt (n : Int) : Value := number (Number.ofInt n)

end Value

end Dialogue
