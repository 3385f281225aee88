import Dialogue.Host.Arena
import Dialogue.Machine
import Dialogue.Value.Buffer

/-!
What host code does, as data. Callbacks and host functions are reactions: they change the state `ε`
of the host, perform operations and go on with the replies.
-/

namespace Dialogue

inductive LibraryError where
  | format (cause : FormatError)
  | machine (cause : MachineError)
  | invalidHandle (h : Handle)
  | reentrant (operation : String)
  | busy (h : Handle)
deriving DecidableEq

namespace LibraryError

def code : LibraryError → String
  | format cause => "Format/" ++ cause.code
  | machine cause => cause.code
  | invalidHandle _ => "InvalidHandle"
  | reentrant _ => "Reentrant"
  | busy _ => "Busy"

def message : LibraryError → String
  | format cause => cause.message
  | machine cause => cause.message
  | invalidHandle h => "Invalid handle " ++ h.text
  | reentrant operation => "Cannot " ++ operation ++ " from inside a callback"
  | busy h => h.text ++ " is busy"

def causes : LibraryError → List String
  | format cause => cause.causes
  | machine (.value _ cause) | machine (.snapshotEntry _ cause) => [cause.message]
  | _ => []

def severity : LibraryError → Severity
  | machine cause => cause.severity
  | _ => .error

end LibraryError

/-- The reply to an operation. Where nothing is replied the reason went to the log. -/
inductive Reply where
  | unit
  | flag (b : Bool)
  | count (n : Nat)
  | created (r : Except LibraryError Handle)
  | state (s : Option MachineState)
  | buffer (number : Option Nat)
  | bytes (b : Option Bytes)
  | snapshot (s : Option Snapshot)
  | names (ns : Option (List String))

mutual

inductive Operation (ε : Type) where
  | create (bytes : Bytes) (callbacks : Handle → Event → Reaction ε)
  | destroy (h : Handle)
  | isAlive (h : Handle)
  | size
  | start (h : Handle) (bough : String)
  | run (h : Handle)
  | state (h : Handle)
  | canContinue (h : Handle)
  | isWaiting (h : Handle)
  | selectContinue (h : Handle)
  | selectChoice (h : Handle) (index : Nat)
  | subscribe (h : Handle) (name : String)
  | unsubscribe (h : Handle) (name : String)
  | setExtern (h : Handle) (name : String) (v : Value)
  | setFunction (h : Handle) (name : String) (arity : Nat) (body : List Value → Reaction ε)
  | declareEnum (h : Handle) (d : EnumDomain)
  | getValue (h : Handle) (name : String)
  | bufferBytes (number : Nat)
  | release (number : Nat)
  | outstanding
  | save (h : Handle)
  | load (h : Handle) (s : Snapshot)
  | externs (h : Handle)
  | boughNames (h : Handle)
  | setSeverity (s : Severity)
  | report (s : Severity) (message : String)
  | resetHandler

inductive Reaction (ε : Type) where
  | done (result : Value)
  | panic (message : Option String)
  | update (f : ε → ε) (next : Reaction ε)
  | inspect (next : ε → Reaction ε)
  | call (op : Operation ε) (next : Reply → Reaction ε)

end

def Reaction.sequence {ε : Type} (ops : List (Operation ε)) (last : Reaction ε) : Reaction ε :=
  ops.foldr (fun op next => .call op fun _ => next) last

end Dialogue
