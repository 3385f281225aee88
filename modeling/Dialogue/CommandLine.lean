import Dialogue.CommandLine.Arguments
import Dialogue.CommandLine.Failure
import Dialogue.CommandLine.Play
import Dialogue.Container.Listing

/-!
The program as a whole: it takes arguments, uses the terminal, and ends with a status. Inspection shows
the tables of a container, and its instructions if asked for.
-/

namespace Dialogue.Inspection

def readContainer (file : String) : Command Container := do
  let r ← liftM (Console.readFile file .done)
  let bytes ← Command.ofExcept (fun e : FileError => ⟨"failed to read " ++ file, [e.message]⟩) r
  Command.ofExcept (fun e => (Failure.ofFormat e).behind (file ++ " is not a compiled container"))
    (Container.parse bytes)

def showInstructions (c : Container) : Command Unit := do
  liftM (Console.printLines c.disassembly)
  if let some (_, e) := c.sweep.failure then throw (.ofFormat e)

def run (i : Inspection) : Command Unit := do
  let c ← readContainer i.file
  liftM (Console.printLines (if i.asDocument then [c.tables.linedText] else c.tableLines))
  if i.disassemble then showInstructions c

end Dialogue.Inspection

namespace Dialogue.Invocation

def threshold (i : Invocation) : Severity := if i.verbose then .debug else .warn

def version : String := "topi 0.1.0"

def command (i : Invocation) (fuel : Nat) : Command Unit :=
  match i.task with
  | .version => ExceptT.lift (Console.printLine version)
  | .inspect inspection => inspection.run
  | .play performance => performance.run fuel i.threshold

def perform (i : Invocation) (fuel : Nat) : Console Nat := do
  match ← (i.command fuel).run with
  | .ok () => return 0
  | .error f =>
    Console.complainLines f.lines
    return 1

def run (args : List String) (fuel : Nat) : Console Nat :=
  match ofArguments? args with
  | some i => i.perform fuel
  | none => .complain usage fun _ => .done 2

end Dialogue.Invocation
