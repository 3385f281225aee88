import Dialogue.Json
import Dialogue.Json.Token

/-!
JSON text as written, and the document it stands for. The text keeps the members of objects in
their order with repeated keys, and numbers as literals; a document has each key once, the last one
written, and numbers within range.
-/

namespace Dialogue.Json

inductive Written where
  | null
  | bool (b : Bool)
  | number (l : Literal)
  | string (s : Option String)
  | array (items : List Written)
  | object (members : List (Option String × Written))

inductive Frame where
  | array (items : List Written)
  | object (members : List (Option String × Written)) (key : Option String)

inductive Reading where
  | value (outer : List Frame)
  | firstItem (outer : List Frame)
  | nextItem (items : List Written) (outer : List Frame)
  | firstKey (outer : List Frame)
  | nextKey (members : List (Option String × Written)) (outer : List Frame)
  | colon (members : List (Option String × Written)) (key : Option String) (outer : List Frame)
  | nextMember (members : List (Option String × Written)) (outer : List Frame)
  | done (w : Written)

namespace Reading

def complete (w : Written) : List Frame → Reading
  | [] => done w
  | .array items :: outer => nextItem (w :: items) outer
  | .object members key :: outer => nextMember ((key, w) :: members) outer

def startValue (outer : List Frame) : Token → Option Reading
  | .null => some (complete .null outer)
  | .bool b => some (complete (.bool b) outer)
  | .number l => some (complete (.number l) outer)
  | .string s => some (complete (.string s) outer)
  | .openBracket => some (firstItem outer)
  | .openBrace => some (firstKey outer)
  | _ => none

def step : Reading → Token → Option Reading
  | value outer, t => startValue outer t
  | firstItem outer, .closeBracket => some (complete (.array []) outer)
  | firstItem outer, t => startValue (.array [] :: outer) t
  | nextItem items outer, .comma => some (value (.array items :: outer))
  | nextItem items outer, .closeBracket => some (complete (.array items.reverse) outer)
  | firstKey outer, .closeBrace => some (complete (.object []) outer)
  | firstKey outer, .string s => some (colon [] s outer)
  | nextKey members outer, .string s => some (colon members s outer)
  | colon members key outer, .colon => some (value (.object members key :: outer))
  | nextMember members outer, .comma => some (nextKey members outer)
  | nextMember members outer, .closeBrace => some (complete (.object members.reverse) outer)
  | _, _ => none

def run : Reading → List Token → Option Written
  | done w, [] => some w
  | _, [] => none
  | reading, t :: ts =>
    match reading.step t with
    | some reading => run reading ts
    | none => none

end Reading

def written? (text : String) : Option Written := do
  Reading.run (.value []) (← tokens? text)

def Literal.numeral? (l : Literal) : Option Numeral :=
  if l.whole ∧ !l.negative ∧ l.digits < UInt64.size then some (.natural l.digits)
  else if l.whole ∧ l.negative ∧ 0 < l.digits ∧ 2 * l.digits ≤ UInt64.size then
    some (.negative l.digits)
  else (Number.ofDecimal? l.negative l.digits l.exponent).map .real

namespace Written

def maxNesting : Nat := 127

mutual

def document? : Nat → Written → Option Json
  | _, null => some .null
  | _, bool b => some (.bool b)
  | _, number l => l.numeral?.map .number
  | _, string s => s.map .string
  | 0, array _ => none
  | level + 1, array items => (items? level items).map .array
  | 0, object _ => none
  | level + 1, object members => (members? level [] members).map .object
termination_by structural _ w => w

def items? : Nat → List Written → Option (List Json)
  | _, [] => some []
  | level, w :: rest =>
    match document? level w with
    | some j => (items? level rest).map (j :: ·)
    | none => none
termination_by structural _ ws => ws

def members? : Nat → List (String × Json) → List (Option String × Written) →
    Option (List (String × Json))
  | _, before, [] => some before
  | level, before, (key, w) :: rest =>
    match key, document? level w with
    | some key, some j => members? level (Entries.insert key j before) rest
    | _, _ => none
termination_by structural _ _ ms => ms

end

end Written

def parse? (text : String) : Option Json := do
  (← written? text).document? Written.maxNesting

end Dialogue.Json
