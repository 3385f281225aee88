namespace Dialogue.Json

structure Literal where
  negative : Bool
  digits : Nat
  exponent : Int
  /-- Neither a fraction nor an exponent is written. -/
  whole : Bool
deriving DecidableEq

inductive Token where
  | openBracket
  | closeBracket
  | openBrace
  | closeBrace
  | comma
  | colon
  | null
  | bool (b : Bool)
  | number (l : Literal)
  /-- None when escapes leave half a surrogate pair. -/
  | string (s : Option String)
deriving DecidableEq

def isDigit (c : Char) : Bool := '0' ≤ c && c ≤ '9'

def digitsValue (cs : List Char) : Nat :=
  cs.foldl (fun n c => n * 10 + (c.toNat - '0'.toNat)) 0

def splitDigits? (cs : List Char) : Option (List Char × List Char) :=
  if (cs.takeWhile isDigit).isEmpty then none else some (cs.takeWhile isDigit, cs.dropWhile isDigit)

def exponentOf? : List Char → Option Int
  | [] => some 0
  | e :: rest =>
    if e = 'e' ∨ e = 'E' then
      let (negative, rest) := match rest with
        | '-' :: rest => (true, rest)
        | '+' :: rest => (false, rest)
        | rest => (false, rest)
      match splitDigits? rest with
      | some (ds, []) =>
        some (if negative then -(digitsValue ds : Int) else digitsValue ds)
      | _ => none
    else none

def Literal.ofChars? (cs : List Char) : Option Literal := do
  let (negative, cs) := match cs with
    | '-' :: rest => (true, rest)
    | cs => (false, cs)
  let (whole, rest) ← splitDigits? cs
  if whole.head? = some '0' ∧ whole.length ≠ 1 then none
  let (fraction, rest) ← match rest with
    | '.' :: rest => splitDigits? rest
    | rest => some ([], rest)
  let exponent ← exponentOf? rest
  return ⟨negative, digitsValue (whole ++ fraction), exponent - fraction.length,
    fraction.isEmpty && rest.isEmpty⟩

def Token.ofWord? (cs : List Char) : Option Token :=
  if cs = ['n', 'u', 'l', 'l'] then some .null
  else if cs = ['t', 'r', 'u', 'e'] then some (.bool true)
  else if cs = ['f', 'a', 'l', 's', 'e'] then some (.bool false)
  else (Literal.ofChars? cs).map .number

def isHighSurrogate (n : Nat) : Bool := 0xd800 ≤ n && n < 0xdc00

def isLowSurrogate (n : Nat) : Bool := 0xdc00 ≤ n && n < 0xe000

def joinPairs? (done : List Char) : List Nat → Option (List Char)
  | [] => some done.reverse
  | [n] =>
    if isHighSurrogate n || isLowSurrogate n then none else some (Char.ofNat n :: done).reverse
  | n :: m :: rest =>
    if isHighSurrogate n then
      if isLowSurrogate m then
        joinPairs? (Char.ofNat (0x10000 + (n - 0xd800) * 0x400 + (m - 0xdc00)) :: done) rest
      else none
    else if isLowSurrogate n then none
    else joinPairs? (Char.ofNat n :: done) (m :: rest)

def hexValue? (c : Char) : Option Nat :=
  if '0' ≤ c ∧ c ≤ '9' then some (c.toNat - '0'.toNat)
  else if 'a' ≤ c ∧ c ≤ 'f' then some (c.toNat - 'a'.toNat + 10)
  else if 'A' ≤ c ∧ c ≤ 'F' then some (c.toNat - 'A'.toNat + 10)
  else none

def unescape? (c : Char) : Option Nat :=
  if c = '"' ∨ c = '\\' ∨ c = '/' then some c.toNat
  else if c = 'b' then some 8
  else if c = 'f' then some 12
  else if c = 'n' then some 10
  else if c = 'r' then some 13
  else if c = 't' then some 9
  else none

def isBlank (c : Char) : Bool := c == ' ' || c == '\t' || c == '\n' || c == '\r'

def isWordChar (c : Char) : Bool := c.isAlphanum || c == '-' || c == '+' || c == '.'

def Token.ofMark? (c : Char) : Option Token :=
  if c = '[' then some .openBracket
  else if c = ']' then some .closeBracket
  else if c = '\x7b' then some .openBrace
  else if c = '\x7d' then some .closeBrace
  else if c = ',' then some .comma
  else if c = ':' then some .colon
  else none

inductive Scan where
  | between
  | word (read : List Char)
  | inside (read : List Nat)
  | escaped (read : List Nat)
  | hex (read : List Nat) (left : Nat) (value : Nat)

namespace Scan

def start (done : List Token) (c : Char) : Option (List Token × Scan) :=
  if isBlank c then some (done, between)
  else if c = '"' then some (done, inside [])
  else if isWordChar c then some (done, word [c])
  else (Token.ofMark? c).map fun t => (t :: done, between)

def step (done : List Token) : Scan → Char → Option (List Token × Scan)
  | between, c => start done c
  | word read, c =>
    if isWordChar c then some (done, word (c :: read))
    else do start ((← Token.ofWord? read.reverse) :: done) c
  | inside read, c =>
    if c = '"' then
      some (.string ((joinPairs? [] read.reverse).map String.ofList) :: done, between)
    else if c = '\\' then some (done, escaped read)
    else if c.toNat < 32 then none
    else some (done, inside (c.toNat :: read))
  | escaped read, c =>
    if c = 'u' then some (done, hex read 3 0)
    else (unescape? c).map fun n => (done, inside (n :: read))
  | hex read left value, c => do
    let digit ← hexValue? c
    let value := value * 16 + digit
    return (done, match left with
      | 0 => inside (value :: read)
      | left + 1 => hex read left value)

def run (done : List Token) : Scan → List Char → Option (List Token)
  | between, [] => some done.reverse
  | word read, [] => (Token.ofWord? read.reverse).map fun t => (t :: done).reverse
  | _, [] => none
  | scan, c :: cs =>
    match scan.step done c with
    | some (done, scan) => run done scan cs
    | none => none

end Scan

def tokens? (text : String) : Option (List Token) := Scan.run [] .between text.toList

end Dialogue.Json
