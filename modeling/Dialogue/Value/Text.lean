import Dialogue.Number.Decimal
import Dialogue.Text
import Dialogue.Value

namespace Dialogue.Value

open Text

mutual

def text : Value → String
  | nil => "nil"
  | bool b => if b then "true" else "false"
  | number n => Layout.plain.text n
  | string s => s
  | list items => listed "List\x7b" "\x7d" (texts items)
  | set members => listed "Set\x7b" "\x7d" (texts members)
  | map entries => listed "Map\x7b" "\x7d" (entryTexts entries)
  | enum e => e.text
termination_by structural v => v

def texts : List Value → List String
  | [] => []
  | v :: rest => text v :: texts rest
termination_by structural vs => vs

def entryTexts : List (Value × Value) → List String
  | [] => []
  | (k, v) :: rest => (text k ++ ": " ++ text v) :: entryTexts rest
termination_by structural es => es

end

mutual

def diagnostic : Value → String
  | nil => "Nil"
  | bool b => "Bool(" ++ (if b then "true" else "false") ++ ")"
  | number n => "Number(" ++ Layout.diagnostic.text n ++ ")"
  | string s => "String(" ++ quote s ++ ")"
  | list items => "List(" ++ listed "[" "]" (diagnostics items) ++ ")"
  | set members =>
    "Set(ValueSet \x7b items: " ++ listed "[" "]" (diagnostics members) ++ " \x7d)"
  | map entries =>
    "Map(ValueMap \x7b entries: " ++ listed "[" "]" (entryDiagnostics entries) ++ " \x7d)"
  | enum e =>
    "Enum(EnumValue \x7b type_name: " ++ quote e.type ++ ", value: " ++ quote e.member ++ " \x7d)"
termination_by structural v => v

def diagnostics : List Value → List String
  | [] => []
  | v :: rest => diagnostic v :: diagnostics rest
termination_by structural vs => vs

def entryDiagnostics : List (Value × Value) → List String
  | [] => []
  | (k, v) :: rest => ("(" ++ diagnostic k ++ ", " ++ diagnostic v ++ ")") :: entryDiagnostics rest
termination_by structural es => es

end

end Dialogue.Value
