import Dialogue.Host.World

namespace Dialogue

inductive Extern (ε : Type) where
  | value (v : Value)
  | function (arity : Nat) (body : List Value → Reaction ε)

abbrev Externs (ε : Type) := Table (Extern ε)

namespace Externs

variable {ε : Type}

def diagnostic (es : Externs ε) : String :=
  "ExternRegistry \x7b names: " ++ Text.listed "[" "]" (es.keys.map Text.quote) ++ " \x7d"

def bindOperation (h : Handle) (name : String) : Extern ε → Operation ε
  | .value v => .setExtern h name v
  | .function arity body => .setFunction h name arity body

/-- Binds the entries that a container declares extern and counts them; the others are reported. -/
def bindEntries (exec : Operation ε → World ε → Option (Reply × World ε)) (h : Handle)
    (declared : List String) : List (String × Extern ε) → World ε → Option (Nat × World ε)
  | [], w => some (0, w)
  | (name, e) :: rest, w =>
    if declared.contains name then
      match exec (bindOperation h name e) w with
      | some (.flag true, w) =>
        (bindEntries exec h declared rest w).map fun (n, w) => (n + 1, w)
      | some (_, w) => bindEntries exec h declared rest w
      | none => none
    else
      bindEntries exec h declared rest (w.report .warn
        ("Container of " ++ h.text ++ " declares no extern `" ++ name ++ "`, skipping binding"))

def bind (es : Externs ε) (exec : Operation ε → World ε → Option (Reply × World ε)) (h : Handle)
    (declared : List String) (w : World ε) : Option (Nat × World ε) :=
  bindEntries exec h declared es.entries w

end Externs

end Dialogue
