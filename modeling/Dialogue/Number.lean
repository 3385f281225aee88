/-!
Numbers are 64-bit floating point words. A finite number is an integer multiple of the smallest
unit `2 ^ -1074`, so exact arithmetic on numbers is arithmetic on integers.
-/

namespace Dialogue

structure Number where
  bits : UInt64
deriving DecidableEq, Inhabited

namespace Number

def isNegative (x : Number) : Bool := x.bits >>> 63 != 0

def exponentField (x : Number) : Nat := ((x.bits >>> 52) &&& 0x7ff).toNat

def fraction (x : Number) : Nat := (x.bits &&& 0xfffffffffffff).toNat

def isFinite (x : Number) : Bool := x.exponentField != 0x7ff

def isNaN (x : Number) : Bool := x.exponentField == 0x7ff && x.fraction != 0

@[noinline] def leadingBit : Nat := 0x10000000000000

def significand (x : Number) : Nat :=
  if x.exponentField = 0 then x.fraction else leadingBit + x.fraction

/-- How many times the significand is doubled, counted in smallest units. -/
def scale (x : Number) : Nat := x.exponentField - 1

def magnitude (x : Number) : Nat := x.significand <<< x.scale

def units (x : Number) : Int :=
  if x.isNegative then -(x.magnitude : Int) else x.magnitude

def isZero (x : Number) : Bool := x.isFinite && x.magnitude == 0

def signBit (negative : Bool) : UInt64 := if negative then 0x8000000000000000 else 0

def zero : Number := ⟨0⟩

def roundHalfEven (a b : Nat) : Nat :=
  let q := a / b
  let r := a % b
  if 2 * r < b then q else if b < 2 * r then q + 1 else q + q % 2

def ofRatio? (negative : Bool) (a b : Nat) : Option Number :=
  let u := a <<< 1074
  let s := (u / b).log2 - 52
  let word := (s <<< 52) + roundHalfEven u (b <<< s)
  if word < (0x7ff <<< 52) then some ⟨signBit negative ||| word.toUInt64⟩ else none

/-- The number nearest to `digits * 10 ^ exponent`. Exponents beyond the range of numbers are
answered without computing the power. -/
def ofDecimal? (negative : Bool) (digits : Nat) (exponent : Int) : Option Number :=
  if digits = 0 then some ⟨signBit negative⟩
  else if exponent > 400 then none
  else if exponent < -(400 + (digits.log2 : Int)) then some ⟨signBit negative⟩
  else ofRatio? negative (digits * Nat.pow 10 exponent.toNat) (Nat.pow 10 (-exponent).toNat)

def ofNat (n : Nat) : Number := (ofRatio? false n 1).getD zero

def ofInt (n : Int) : Number := (ofRatio? (n < 0) n.natAbs 1).getD zero

/-- The nearest integer, halves away from zero, held within 32 bits. NaN counts as zero. -/
def toInt32 (x : Number) : Int :=
  if x.isNaN then 0
  else
    let n : Nat := (x.magnitude + (1 <<< 1073)) >>> 1074
    if x.isNegative then max (-(n : Int)) (-2147483648) else min (n : Int) 2147483647

/-- The nearest number of single precision, widened again. -/
def toSingle (x : Number) : Number :=
  if !x.isFinite then x
  else
    let s := max 925 (x.magnitude.log2 - 23)
    let rounded := roundHalfEven x.magnitude (1 <<< s) <<< s
    if rounded < (1 <<< 1202) then (ofRatio? x.isNegative rounded (1 <<< 1074)).getD zero
    else ⟨signBit x.isNegative ||| 0x7ff0000000000000⟩

end Number

end Dialogue
