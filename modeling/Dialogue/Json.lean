import Dialogue.Number.Decimal
import Dialogue.Table
import Dialogue.Text

namespace Dialogue

/-- A number of a document: an integer within 64 bits, or a finite number. -/
inductive Numeral where
  | natural (n : Nat)
  | negative (n : Nat)
  | real (x : Number)
deriving DecidableEq

/-- A document. What is read has the members of objects in the order of their keys. -/
inductive Json where
  | null
  | bool (b : Bool)
  | number (n : Numeral)
  | string (s : String)
  | array (items : List Json)
  | object (members : List (String × Json))
deriving Inhabited

namespace Numeral

def toNumber : Numeral → Number
  | natural n => .ofNat n
  | negative n => .ofInt (-n)
  | real x => x

def text : Numeral → String
  | natural n => toString n
  | negative n => "-" ++ toString n
  | real x => Layout.document.text x

/-- Integers equal integers only; the two zeros among the other numbers are equal. -/
def same : Numeral → Numeral → Bool
  | natural a, natural b => a == b
  | negative a, negative b => a == b
  | real x, real y => x == y || x.isZero && y.isZero
  | _, _ => false

end Numeral

namespace Json

def nat (n : Nat) : Json := number (.natural n)

def escape (c : Char) : List Char :=
  if c = '"' then ['\\', '"']
  else if c = '\\' then ['\\', '\\']
  else if c.toNat = 8 then ['\\', 'b']
  else if c.toNat = 12 then ['\\', 'f']
  else if c = '\n' then ['\\', 'n']
  else if c = '\r' then ['\\', 'r']
  else if c = '\t' then ['\\', 't']
  else if c.toNat < 32 then
    ['\\', 'u', '0', '0', Hex.digit (c.toNat / 16), Hex.digit (c.toNat % 16)]
  else [c]

def quoted (s : String) : List Char := '"' :: (s.toList.flatMap escape ++ ['"'])

mutual

def chars : Json → List Char
  | null => ['n', 'u', 'l', 'l']
  | bool true => ['t', 'r', 'u', 'e']
  | bool false => ['f', 'a', 'l', 's', 'e']
  | number n => n.text.toList
  | string s => quoted s
  | array items => '[' :: (itemChars false items ++ [']'])
  | object members => '\x7b' :: (memberChars false members ++ ['\x7d'])
termination_by structural j => j

def itemChars : Bool → List Json → List Char
  | _, [] => []
  | comma, j :: rest => (if comma then [','] else []) ++ (chars j ++ itemChars true rest)
termination_by structural _ js => js

def memberChars : Bool → List (String × Json) → List Char
  | _, [] => []
  | comma, (key, j) :: rest =>
    (if comma then [','] else []) ++ (quoted key ++ ':' :: (chars j ++ memberChars true rest))
termination_by structural _ ms => ms

end

def text (j : Json) : String := String.ofList j.chars

def newline (indent : Nat) : List Char := '\n' :: List.replicate (2 * indent) ' '

mutual

def linedChars : Nat → Json → List Char
  | _, array [] => ['[', ']']
  | indent, array items =>
    '[' :: (linedItems (indent + 1) false items ++ (newline indent ++ [']']))
  | _, object [] => ['\x7b', '\x7d']
  | indent, object members =>
    '\x7b' :: (linedMembers (indent + 1) false members ++ (newline indent ++ ['\x7d']))
  | _, null => ['n', 'u', 'l', 'l']
  | _, bool true => ['t', 'r', 'u', 'e']
  | _, bool false => ['f', 'a', 'l', 's', 'e']
  | _, number n => n.text.toList
  | _, string s => quoted s
termination_by structural _ j => j

def linedItems : Nat → Bool → List Json → List Char
  | _, _, [] => []
  | indent, comma, j :: rest =>
    (if comma then [','] else []) ++
      (newline indent ++ (linedChars indent j ++ linedItems indent true rest))
termination_by structural _ _ js => js

def linedMembers : Nat → Bool → List (String × Json) → List Char
  | _, _, [] => []
  | indent, comma, (key, j) :: rest =>
    (if comma then [','] else []) ++ (newline indent ++
      (quoted key ++ ':' :: ' ' :: (linedChars indent j ++ linedMembers indent true rest)))
termination_by structural _ _ ms => ms

end

def linedText (j : Json) : String := String.ofList (linedChars 0 j)

mutual

def same : Json → Json → Bool
  | null, null => true
  | bool a, bool b => a == b
  | number a, number b => a.same b
  | string a, string b => a == b
  | array xs, array ys => sameItems xs ys
  | object xs, object ys => sameMembers xs ys
  | _, _ => false
termination_by structural x => x

def sameItems : List Json → List Json → Bool
  | [], [] => true
  | x :: xs, y :: ys => same x y && sameItems xs ys
  | _, _ => false
termination_by structural xs => xs

/-- Members compare in order: both objects have theirs in the order of the keys. -/
def sameMembers : List (String × Json) → List (String × Json) → Bool
  | [], [] => true
  | (k, x) :: xs, (l, y) :: ys => k == l && same x y && sameMembers xs ys
  | _, _ => false
termination_by structural xs => xs

end

def member? (members : List (String × Json)) (key : String) : Option Json :=
  Entries.find? key members

end Json

end Dialogue
