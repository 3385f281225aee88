import Dialogue.Container.Format
import Dialogue.Value

namespace Dialogue

inductive WaitKind where
  | continuation
  | choice
deriving DecidableEq

inductive MachineState where
  | ready
  | running
  | waiting (kind : WaitKind)
  | finished
  | faulted
deriving DecidableEq, Inhabited

def MachineState.text : MachineState → String
  | ready => "ready"
  | running => "running"
  | waiting .continuation => "waiting for continue"
  | waiting .choice => "waiting for a choice"
  | finished => "finished"
  | faulted => "faulted"

inductive Severity where
  | debug
  | info
  | warn
  | error
deriving DecidableEq, Inhabited

namespace Severity

def rank : Severity → Nat
  | debug => 0
  | info => 1
  | warn => 2
  | error => 3

def name : Severity → String
  | debug => "debug"
  | info => "info"
  | warn => "warn"
  | error => "error"

def ofName? (name : String) : Option Severity :=
  [debug, info, warn, error].find? fun s => s.name == name

end Severity

inductive Fault where
  | undecodable (cause : FormatError)
  | emptyChoices
  | targetOutside (target : UInt32)
  | unknownGlobal (index : UInt32)
  | immutable (name : String)
  | hostPanic (message : String)
deriving DecidableEq

def Fault.message : Fault → String
  | undecodable cause => cause.message
  | emptyChoices => "empty choice set"
  | targetOutside target => "jump target " ++ toString target.toNat ++ " outside the code section"
  | unknownGlobal index => "unknown global index " ++ toString index.toNat
  | immutable name => "assignment to immutable global `" ++ name ++ "`"
  | hostPanic message => "host panic: " ++ message

inductive MachineError where
  | unknownVariable (name : String)
  | notExtern (name : String)
  | notObservable (name : String)
  | arityMismatch (name : String) (expected actual : Nat)
  | unboundFunction (name : String)
  | choiceOutOfRange (index count : Nat)
  | unknownBough (name : String)
  | invalidState (operation : String) (state : MachineState)
  | value (name : String) (cause : ValueError)
  | snapshotEntry (name : String) (cause : ValueError)
  | fault (ip : Nat) (cause : Fault)
deriving DecidableEq

namespace MachineError

def code : MachineError → String
  | unknownVariable _ => "UnknownVariable"
  | notExtern _ => "NotExtern"
  | notObservable _ => "NotObservable"
  | arityMismatch .. => "ArityMismatch"
  | unboundFunction _ => "UnboundFunction"
  | choiceOutOfRange .. => "ChoiceIndexOutOfRange"
  | unknownBough _ => "UnknownBough"
  | invalidState .. => "InvalidState"
  | value _ cause => "Value/" ++ cause.code
  | snapshotEntry _ cause => "SnapshotEntry/" ++ cause.code
  | fault .. => "RuntimeFault"

def message : MachineError → String
  | unknownVariable name => "Unknown variable `" ++ name ++ "`"
  | notExtern name => "Variable `" ++ name ++ "` is not extern"
  | notObservable name =>
    "Variable `" ++ name ++ "` is bound to a function and cannot be observed"
  | arityMismatch name expected actual =>
    "Function `" ++ name ++ "` expects " ++ toString expected ++ " arguments, got " ++
      toString actual
  | unboundFunction name => "Function `" ++ name ++ "` is not bound"
  | choiceOutOfRange index count =>
    "Choice index " ++ toString index ++ " out of range (" ++ toString count ++ " options)"
  | unknownBough name => "Unknown bough `" ++ name ++ "`"
  | invalidState operation state => "Cannot " ++ operation ++ " while " ++ state.text
  | value name cause => "Invalid value for `" ++ name ++ "`: " ++ cause.message
  | snapshotEntry name cause => "Skipped snapshot entry `" ++ name ++ "`: " ++ cause.message
  | fault ip cause => "Runtime fault at " ++ toString ip ++ ": " ++ cause.message

def severity : MachineError → Severity
  | unknownVariable _ | notObservable _ | snapshotEntry .. => .warn
  | _ => .error

def isFault : MachineError → Bool
  | fault .. => true
  | _ => false

end MachineError

end Dialogue
