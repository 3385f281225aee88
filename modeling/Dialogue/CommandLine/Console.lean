import Dialogue.Files

/-!
What a command does with the terminal and with files, as data, so that it can be performed on a real
terminal or on one in memory.
-/

namespace Dialogue

inductive Console (α : Type) where
  | done (result : α)
  | exhausted
  | print (text : String) (next : Unit → Console α)
  | complain (text : String) (next : Unit → Console α)
  | readLine (next : Option String → Console α)
  | readFile (path : String) (next : Except FileError Bytes → Console α)
  | writeFile (path : String) (bytes : Bytes) (next : Except FileError Unit → Console α)
  | isPresent (path : String) (next : Bool → Console α)

namespace Console

variable {α β : Type}

def bind : Console α → (α → Console β) → Console β
  | done x, f => f x
  | exhausted, _ => exhausted
  | print text next, f => print text fun u => (next u).bind f
  | complain text next, f => complain text fun u => (next u).bind f
  | readLine next, f => readLine fun r => (next r).bind f
  | readFile path next, f => readFile path fun r => (next r).bind f
  | writeFile path bytes next, f => writeFile path bytes fun r => (next r).bind f
  | isPresent path next, f => isPresent path fun r => (next r).bind f

instance : Monad Console where
  pure := done
  bind := bind

def printLine (line : String) : Console Unit := print (line ++ "\n") done

def printLines : List String → Console Unit
  | [] => done ()
  | line :: rest => do
    printLine line
    printLines rest

def complainLine (line : String) : Console Unit := complain (line ++ "\n") done

def complainLines : List String → Console Unit
  | [] => done ()
  | line :: rest => do
    complainLine line
    complainLines rest

end Console

structure Terminal where
  input : List Char
  files : Files
  output : String := ""
  complaints : String := ""

namespace Terminal

def takeLine (t : Terminal) : Option String × Terminal :=
  if t.input.isEmpty then (none, t)
  else
    let line := t.input.takeWhile (· != '\n')
    match t.input.dropWhile (· != '\n') with
    | [] => (some (String.ofList line), { t with input := [] })
    | _ :: rest => (some (String.ofList line ++ "\n"), { t with input := rest })

def perform {α : Type} : Console α → Terminal → Option (α × Terminal)
  | .done x, t => some (x, t)
  | .exhausted, _ => none
  | .print text next, t => perform (next ()) { t with output := t.output ++ text }
  | .complain text next, t => perform (next ()) { t with complaints := t.complaints ++ text }
  | .readLine next, t => let (line, t) := t.takeLine; perform (next line) t
  | .readFile path next, t => perform (next (t.files.read path)) t
  | .writeFile path bytes next, t =>
    match t.files.write path bytes with
    | .ok files => perform (next (.ok ())) { t with files := files }
    | .error e => perform (next (.error e)) t
  | .isPresent path next, t => perform (next (t.files.isPresent path)) t

end Terminal

end Dialogue
