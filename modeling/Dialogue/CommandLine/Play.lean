import Dialogue.CommandLine.Arguments
import Dialogue.CommandLine.Failure
import Dialogue.Story.Files
import Dialogue.Story.Telling

namespace Dialogue

abbrev Log := List String

abbrev Play := ExceptT Failure (StateT (World (Story Log)) Console)

namespace Play

def logged (s : Severity) (message : String) (story : Story Log) : Story Log :=
  { story with host := ("[" ++ s.name ++ "] " ++ message) :: story.host }

def onConsole {α : Type} (c : Console α) : Play α := ExceptT.lift (StateT.lift c)

def attempt {α : Type} (t : Telling Log α) : Play (Except StoryError α) := ExceptT.mk fun w =>
  match t.run w with
  | none => .exhausted
  | some (r, w) => do
    Console.complainLines w.host.host.reverse
    return (.ok r, { w with host := { w.host with host := [] } })

def ofExcept {α : Type} (r : Except StoryError α) : Play α :=
  ExceptT.mk (pure (r.mapError .ofStory))

def tell {α : Type} (t : Telling Log α) : Play α := do ofExcept (← attempt t)

def changeLine? : StoryEvent → Option String
  | .changed name v => some ("[" ++ name ++ " = " ++ v.diagnostic ++ "]")
  | _ => none

def showChanges (i : Nat) : Play Unit := do
  let events ← tell (Telling.takeEvents i)
  onConsole (Console.printLines (events.filterMap changeLine?))

def lineText (spoken : SpokenLine) : String :=
  if spoken.speakerName.isEmpty then spoken.line.content
  else spoken.speakerName ++ ": " ++ spoken.line.content

def choiceLines (cs : List Choice) : List String :=
  cs.zipIdx.map fun (c, i) =>
    "  " ++ toString (i + 1) ++ ". " ++ c.content ++ (if 0 < c.visits then " (seen)" else "")

/-- Asks for one of the numbers from 1 to `count` until it is given. At the end of the input the
first choice is taken. -/
def askIndex (count : Nat) : Nat → Console Nat
  | 0 => .exhausted
  | fuel + 1 =>
    .print "> " fun _ => .readLine fun
      | none => .done 0
      | some line =>
        match Arguments.natural? (Text.trimBlanks line) with
        | some (n + 1) => if n + 1 ≤ count then .done n else askAgain fuel
        | _ => askAgain fuel
where
  askAgain (fuel : Nat) : Console Nat :=
    .print ("Enter a number between 1 and " ++ toString count ++ "\n") fun _ => askIndex count fuel

def chooseIndex (fuel : Nat) (answers : Option (List Nat)) (cs : List Choice) :
    Play (Nat × Option (List Nat)) := do
  onConsole (Console.printLines (choiceLines cs))
  match answers with
  | some (index :: rest) => return (index, some rest)
  | some [] => return (0, some [])
  | none => return (← onConsole (askIndex cs.length fuel), none)

/-- Shows slices and answers them until the conversation is over, as long as the fuel and the slices
last. An answer out of range is asked for again. -/
def slices (fuel i : Nat) (maxSlices : Option Nat) : Nat → Nat → Option (List Nat) → Play Unit
  | 0, _, _ => onConsole .exhausted
  | rounds + 1, count, answers => do
    if let some most := maxSlices then
      if most ≤ count then throw (.ofStory (.slicesExhausted most))
    let slice ← attempt (Telling.tick fuel i)
    showChanges i
    match ← ofExcept slice with
    | .finished => return ()
    | .running => slices fuel i maxSlices rounds (count + 1) answers
    | .line spoken =>
      onConsole (Console.printLine (lineText spoken))
      tell (Telling.continueLine fuel i)
      slices fuel i maxSlices rounds (count + 1) answers
    | .choices cs =>
      let (index, answers) ← chooseIndex fuel answers cs
      if cs.length ≤ index then
        onConsole (Console.complainLine
          ("no option " ++ toString ((index + 1) % UInt64.size) ++ ", asking again"))
      else tell (Telling.selectChoice fuel i index)
      slices fuel i maxSlices rounds (count + 1) answers

def drive (fuel i : Nat) (answers : Option (List Nat)) : Play Unit := do
  let c ← tell (Telling.conversation? i)
  tell (Telling.start fuel i)
  slices fuel i (c.bind (·.config.maxSlices)) fuel 0 answers

def watch (fuel i : Nat) (name : String) : Play Unit := do
  if !(← tell (Telling.subscribe fuel i name)) then
    onConsole (Console.complainLine ("cannot watch `" ++ name ++ "`"))

end Play

namespace Performance

def readConfig (p : Performance) : Command Config := do
  let config ← match p.config with
    | none => pure {}
    | some path =>
      let r ← liftM (Console.readFile path .done)
      Command.ofExcept .ofStory (Config.load (fun _ => r) path)
  return { config with bough := p.bough.getD config.bough }

def readState (p : Performance) : Command Snapshot := do
  match p.state with
  | none => return .empty
  | some path =>
    if ← liftM (Console.isPresent path .done) then
      let r ← liftM (Console.readFile path .done)
      Command.ofExcept .ofStory (SavedState.load (fun _ => r) path)
    else return .empty

def readData (p : Performance) : Command CompiledData := do
  match Path.split? p.file with
  | none => throw ⟨"invalid file name: " ++ p.file, []⟩
  | some (root, name) =>
    let directory : AssetDirectory := ⟨root, none⟩
    let r ← liftM (Console.readFile (directory.path name) .done)
    Command.ofExcept (fun e => (Failure.ofStory e).behind ("failed to load " ++ p.file))
      (directory.load (fun _ => r) name)

def tell (p : Performance) (fuel : Nat) (data : CompiledData) (config : Config) : Play Unit := do
  let r ← Play.attempt (Telling.create fuel .empty data config)
  let i ← ExceptT.mk (pure (r.mapError fun e =>
    (Failure.ofStory e).behind ("failed to load " ++ p.file)))
  for name in p.watched do
    Play.watch fuel i name
  Play.drive fuel i p.answers

def writeState (p : Performance) (s : Snapshot) : Command Unit := do
  if let some path := p.state then
    let r ← liftM (Console.writeFile path (SavedState.bytes s) .done)
    Command.ofExcept (fun e => .ofStory (.file path e)) r

/-- Plays a file. The state is saved when the conversation is over. -/
def run (p : Performance) (fuel : Nat) (threshold : Severity) : Command Unit := do
  let config ← p.readConfig
  let state ← p.readState
  let w := World.create Play.logged { Story.create [] with state := state }
  let w := { w with channel := { w.channel with threshold := threshold } }
  let data ← p.readData
  let (r, w) ← liftM ((p.tell fuel data config).run w)
  Command.ofExcept id r
  p.writeState w.host.state

end Performance

end Dialogue
