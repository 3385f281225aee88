import Dialogue.CommandLine

namespace Dialogue

def FileError.ofSystem : IO.Error → FileError
  | .noFileOrDirectory .. => notFound
  | .inappropriateType _ code _ => if code = 20 then notADirectory else isADirectory
  | e => other (toString e)

def attemptFile {α : Type} (action : IO α) : IO (Except FileError α) := do
  match ← action.toBaseIO with
  | .ok x => return .ok x
  | .error e => return .error (.ofSystem e)

def Console.performOnSystem {α : Type} : Console α → IO α
  | done x => return x
  | exhausted => throw (IO.userError "the fuel is used up")
  | print text next => do
    let out ← IO.getStdout
    out.putStr text
    out.flush
    (next ()).performOnSystem
  | complain text next => do
    IO.eprint text
    (next ()).performOnSystem
  | readLine next => do
    let line ← (← IO.getStdin).getLine
    (next (if line.isEmpty then none else some line)).performOnSystem
  | readFile path next => do
    let r ← attemptFile (IO.FS.readBinFile path)
    (next (r.map (·.data))).performOnSystem
  | writeFile path bytes next => do
    let r ← attemptFile (IO.FS.writeBinFile path ⟨bytes⟩)
    (next r).performOnSystem
  | isPresent path next => do
    let r ← attemptFile (IO.FS.readBinFile path)
    let present := match r with
      | .error .notFound | .error .notADirectory => false
      | _ => true
    (next present).performOnSystem

end Dialogue

def main (args : List String) : IO UInt32 := do
  return (← (Dialogue.Invocation.run args 0x4000000000000000).performOnSystem).toUInt32
