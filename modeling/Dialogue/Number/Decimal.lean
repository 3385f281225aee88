import Dialogue.Number

namespace Dialogue

structure Decimal where
  digits : Nat
  exponent : Int
deriving DecidableEq, Inhabited

inductive Tie where
  | up
  | toEven

/-- How digits are laid out. `point` below is the place of the point: the value is
`0.digits * 10 ^ point`. -/
structure Layout where
  tie : Tie
  positional : Int → Bool
  wholePoint : Bool
  exponentPlus : Bool

namespace Decimal

def strip : Nat → Decimal → Decimal
  | 0, d => d
  | n + 1, d => if d.digits % 10 = 0 then strip n ⟨d.digits / 10, d.exponent + 1⟩ else d

def leadingPlace (a b : Nat) : Nat → Int → Int
  | 0, k => k
  | n + 1, k =>
    if a * Nat.pow 10 (-k).toNat < Nat.pow 10 k.toNat * b then k else leadingPlace a b n (k + 1)

def pointPlace (a b : Nat) : Int :=
  leadingPlace a b 8 (((a.log2 : Int) - (b.log2 : Int)) * 1233 / 4096 - 2)

def readsAs (x : Number) (d : Decimal) : Bool :=
  Number.ofDecimal? x.isNegative d.digits d.exponent == some x

def choose (tie : Tie) (x : Number) (below : Nat) (exponent : Int) (rest whole : Nat) :
    Option Decimal :=
  let lower : Decimal := ⟨below, exponent⟩
  let upper : Decimal := ⟨below + 1, exponent⟩
  match readsAs x lower, readsAs x upper with
  | true, true =>
    if 2 * rest < whole then some lower
    else if whole < 2 * rest then some upper
    else match tie with
      | .up => some upper
      | .toEven => some (if below % 2 = 0 then lower else upper)
  | true, false => some lower
  | false, true => some upper
  | false, false => none

def onGrid (tie : Tie) (x : Number) (point : Int) (count : Nat) : Option Decimal :=
  let exponent := point - count
  let a := x.magnitude * Nat.pow 10 (-exponent).toNat
  let b := Nat.pow 10 exponent.toNat <<< 1074
  choose tie x (a / b) exponent (a % b) b

def expansion (x : Number) : Decimal := ⟨x.magnitude * Nat.pow 5 1074, -1074⟩

/-- The fewest digits that read back as the number; of those the nearest. Zero is written with
the digit zero. -/
def shortest (tie : Tie) (x : Number) : Decimal :=
  if x.magnitude = 0 then ⟨0, 0⟩
  else
    let point := pointPlace x.magnitude (1 <<< 1074)
    strip 20 (((List.range 17).findSome? fun n => onGrid tie x point (n + 1)).getD (expansion x))

def zeros (n : Nat) : String := "".pushn '0' n

def positional (whole : Bool) (digits : String) (point : Int) : String :=
  let n := digits.length
  if point ≤ 0 then "0." ++ zeros (-point).toNat ++ digits
  else if n ≤ point.toNat then
    digits ++ zeros (point.toNat - n) ++ (if whole then ".0" else "")
  else
    String.ofList (digits.toList.take point.toNat) ++ "." ++
      String.ofList (digits.toList.drop point.toNat)

def scientific (plus : Bool) (digits : String) (point : Int) : String :=
  let power := point - 1
  let sign := if power < 0 then "-" else if plus then "+" else ""
  let rest := digits.toList.drop 1
  String.ofList (digits.toList.take 1) ++
    (if rest.isEmpty then "" else "." ++ String.ofList rest) ++ "e" ++ sign ++ toString power.natAbs

end Decimal

def Layout.finite (layout : Layout) (x : Number) : String :=
  let sign := if x.isNegative then "-" else ""
  if x.magnitude = 0 then sign ++ (if layout.wholePoint then "0.0" else "0")
  else
    let d := Decimal.shortest layout.tie x
    let digits := toString d.digits
    let point := (digits.length : Int) + d.exponent
    sign ++ (if layout.positional point then Decimal.positional layout.wholePoint digits point
      else Decimal.scientific layout.exponentPlus digits point)

def Layout.text (layout : Layout) (x : Number) : String :=
  if x.isNaN then "NaN"
  else if x.isFinite then layout.finite x
  else if x.isNegative then "-inf"
  else "inf"

/-- Numbers in running text are never written with an exponent, and whole numbers have no point. -/
def Layout.plain : Layout := ⟨.up, fun _ => true, false, false⟩

/-- Numbers in diagnostics always show that they are not integers, and have an exponent from
`1e16` on and below `1e-4`. -/
def Layout.diagnostic : Layout := ⟨.up, fun point => -4 < point && point ≤ 16, true, false⟩

/-- Numbers in documents have an exponent with its sign from `1e16` on and below `1e-5`. -/
def Layout.document : Layout := ⟨.toEven, fun point => -5 < point && point ≤ 16, true, true⟩

end Dialogue
