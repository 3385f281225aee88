import Dialogue.Files
import Dialogue.Host.Reaction

namespace Dialogue

inductive StoryError where
  | library (cause : LibraryError)
  | snapshot
  | format (cause : FormatError)
  | value (name : String) (cause : ValueError)
  | decode (cause : DecodeError)
  | assetNotFound (key : String)
  | notCompiled (key : String)
  | startFailed (bough : String)
  | destroyed (h : Handle)
  | rejected (operation : String)
  | faulted (h : Handle)
  | slicesExhausted (slices : Nat)
  | file (path : String) (cause : FileError)
  | json
deriving DecidableEq

def StoryError.code : StoryError → String
  | library cause => "Vm/" ++ cause.code
  | snapshot => "Vm/Snapshot"
  | format cause => "Format/" ++ cause.code
  | value _ cause => "Value/" ++ cause.code
  | decode cause => "Decode/" ++ cause.code
  | assetNotFound _ => "AssetNotFound"
  | notCompiled _ => "NotCompiled"
  | startFailed _ => "StartFailed"
  | destroyed _ => "Destroyed"
  | rejected _ => "Rejected"
  | faulted _ => "Faulted"
  | slicesExhausted _ => "SliceBudgetExhausted"
  | file _ cause => "Io/" ++ cause.code
  | json => "Json"

def StoryError.message : StoryError → String
  | library cause => cause.message
  | snapshot => "Invalid snapshot"
  | format cause => cause.message
  | value name cause => "Invalid value for `" ++ name ++ "`: " ++ cause.message
  | decode cause => cause.message
  | assetNotFound key => "Asset not found: " ++ key
  | notCompiled key => "Asset `" ++ key ++ "` is not compiled dialogue"
  | startFailed bough => "Could not start bough `" ++ bough ++ "`"
  | destroyed h => "Conversation for " ++ h.text ++ " was destroyed"
  | rejected operation => "VM rejected `" ++ operation ++ "`"
  | faulted h => "Conversation for " ++ h.text ++ " faulted"
  | slicesExhausted slices =>
    "Conversation did not finish within " ++ toString slices ++ " slices"
  | file path cause => "Failed to read " ++ path ++ ": " ++ cause.message
  | json => "Invalid JSON"

def StoryError.causes : StoryError → List String
  | library cause => cause.causes
  | format cause => cause.causes
  | value _ cause => [cause.message]
  | file _ cause => [cause.message]
  | _ => []

end Dialogue
