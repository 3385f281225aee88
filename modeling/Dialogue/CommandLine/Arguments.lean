namespace Dialogue

structure Inspection where
  file : String
  asDocument : Bool
  disassemble : Bool
deriving DecidableEq

structure Performance where
  file : String
  bough : Option String
  config : Option String
  state : Option String
  answers : Option (List Nat)
  watched : List String
deriving DecidableEq

inductive Task where
  | version
  | inspect (inspection : Inspection)
  | play (performance : Performance)
deriving DecidableEq

structure Invocation where
  verbose : Bool
  task : Task
deriving DecidableEq

structure OptionForm where
  long : String
  short : Option Char
  takesValue : Bool

structure ArgumentList where
  flags : List String := []
  values : List (String × String) := []
  files : List String := []

namespace Arguments

def natural? (text : String) : Option Nat :=
  let digits := match text.toList with
    | '+' :: rest => rest
    | cs => cs
  if digits.isEmpty || !digits.all Char.isDigit then none
  else
    let n := digits.foldl (fun n c => n * 10 + (c.toNat - '0'.toNat)) 0
    if n < UInt64.size then some n else none

structure Reading where
  list : ArgumentList := {}
  awaited : Option String := none
  filesOnly : Bool := false

namespace Reading

def flag (r : Reading) (name : String) : Reading :=
  { r with list := { r.list with flags := r.list.flags ++ [name] } }

def value (r : Reading) (name text : String) : Reading :=
  { r with list := { r.list with values := r.list.values ++ [(name, text)] }, awaited := none }

def file (r : Reading) (text : String) : Reading :=
  { r with list := { r.list with files := r.list.files ++ [text] } }

def short? (forms : List OptionForm) (r : Reading) : List Char → Option Reading
  | [] => some r
  | c :: rest =>
    match forms.find? fun form => form.short == some c with
    | none => none
    | some form =>
      if form.takesValue then
        match rest with
        | [] => some { r with awaited := some form.long }
        | '=' :: text => some (r.value form.long (String.ofList text))
        | text => some (r.value form.long (String.ofList text))
      else short? forms (r.flag form.long) rest

def long? (forms : List OptionForm) (r : Reading) (text : List Char) : Option Reading := do
  let name := String.ofList (text.takeWhile (· != '='))
  let form ← forms.find? fun form => form.long == name
  match form.takesValue, text.dropWhile (· != '=') with
  | true, [] => some { r with awaited := some form.long }
  | true, _ :: attached => some (r.value form.long (String.ofList attached))
  | false, [] => some (r.flag form.long)
  | false, _ :: _ => none

def argument? (forms : List OptionForm) (r : Reading) (text : String) : Option Reading :=
  if r.filesOnly then some (r.file text)
  else
    match r.awaited, text.toList with
    | some _, '-' :: _ :: _ => none
    | some name, _ => some (r.value name text)
    | none, ['-', '-'] => some { r with filesOnly := true }
    | none, '-' :: '-' :: rest => r.long? forms rest
    | none, '-' :: c :: rest => r.short? forms (c :: rest)
    | none, _ => some (r.file text)

end Reading

def read? (forms : List OptionForm) (args : List String) : Option ArgumentList := do
  let r ← args.foldlM (Reading.argument? forms) {}
  if r.awaited.isSome then none else some r.list

end Arguments

namespace ArgumentList

def flag? (list : ArgumentList) (name : String) : Option Bool :=
  match list.flags.count name with
  | 0 => some false
  | 1 => some true
  | _ => none

def valuesOf (list : ArgumentList) (name : String) : List String :=
  (list.values.filter (·.1 == name)).map (·.2)

def value? (list : ArgumentList) (name : String) : Option (Option String) :=
  match list.valuesOf name with
  | [] => some none
  | [text] => some (some text)
  | _ => none

def path? (list : ArgumentList) (name : String) : Option (Option String) := do
  let path ← list.value? name
  if path = some "" then none else some path

def file? (list : ArgumentList) : Option String :=
  match list.files with
  | [file] => if file.isEmpty then none else some file
  | _ => none

def naturals? (list : ArgumentList) (name : String) : Option (Option (List Nat)) :=
  match list.valuesOf name with
  | [] => some none
  | texts => (texts.flatMap (·.splitOn ",")).mapM Arguments.natural? |>.map some

end ArgumentList

namespace Invocation

def verboseForm : OptionForm := ⟨"verbose", some 'v', false⟩

def frontForms : List OptionForm := [verboseForm, ⟨"version", some 'V', false⟩]

def inspectForms : List OptionForm :=
  [verboseForm, ⟨"json", none, false⟩, ⟨"disassemble", some 'd', false⟩]

def playForms : List OptionForm :=
  [verboseForm, ⟨"bough", some 'b', true⟩, ⟨"config", none, true⟩, ⟨"state", none, true⟩,
    ⟨"choose", none, true⟩, ⟨"watch", none, true⟩]

def inspection? (list : ArgumentList) : Option Inspection := do
  return ⟨← list.file?, ← list.flag? "json", ← list.flag? "disassemble"⟩

def performance? (list : ArgumentList) : Option Performance := do
  return ⟨← list.file?, ← list.value? "bough", ← list.path? "config", ← list.path? "state",
    ← list.naturals? "choose", list.valuesOf "watch"⟩

def separate (arg : String) : List String :=
  match arg.toList with
  | '-' :: '-' :: _ => [arg]
  | _ :: flags => flags.map fun c => String.ofList ['-', c]
  | [] => []

def asksVersion (r : Arguments.Reading) : List String → Bool
  | [] => false
  | arg :: rest =>
    match r.argument? frontForms arg with
    | none => false
    | some r => r.list.flags.contains "version" ||
        ((r.list.flag? "verbose").isSome && asksVersion r rest)

/-- Reads all arguments. What stands in front of the command can only be a flag. -/
def ofArguments? (args : List String) : Option Invocation := do
  let isFlag (arg : String) := arg.startsWith "-" && arg != "-"
  let before := args.takeWhile isFlag
  if asksVersion {} (before.flatMap separate) then return ⟨false, .version⟩
  if before.contains "--" then none
  let verbose ← (← Arguments.read? [verboseForm] before).flag? "verbose"
  match args.dropWhile isFlag with
  | "inspect" :: rest =>
    let list ← Arguments.read? inspectForms rest
    return ⟨verbose || (← list.flag? "verbose"), .inspect (← inspection? list)⟩
  | "play" :: rest =>
    let list ← Arguments.read? playForms rest
    return ⟨verbose || (← list.flag? "verbose"), .play (← performance? list)⟩
  | _ => none

def usage : String :=
  "Usage: [-v] inspect FILE [--json] [-d]\n" ++
    "       [-v] play FILE [-b BOUGH] [--config FILE] [--state FILE] [--choose N,...]\n" ++
    "            [--watch NAME]\n" ++
    "       --version\n"

end Invocation

end Dialogue
