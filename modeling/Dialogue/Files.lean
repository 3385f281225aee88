import Dialogue.Files.Path
import Dialogue.Table
import Dialogue.Wire.Cursor

/-!
Files by path, as seen from a working directory. Directories are there as far as files, or the
working directory, are in them.
-/

namespace Dialogue

inductive FileError where
  | notFound
  | notADirectory
  | isADirectory
  | invalidName
  | nameTooLong
  | invalidData
  | other (message : String)
deriving DecidableEq

def FileError.code : FileError → String
  | notFound => "NotFound"
  | notADirectory => "NotADirectory"
  | isADirectory => "IsADirectory"
  | invalidName => "InvalidInput"
  | nameTooLong => "InvalidFilename"
  | invalidData => "InvalidData"
  | other _ => "Other"

def FileError.message : FileError → String
  | notFound => "No such file or directory (os error 2)"
  | notADirectory => "Not a directory (os error 20)"
  | isADirectory => "Is a directory (os error 21)"
  | invalidName => "file name contained an unexpected NUL byte"
  | nameTooLong => "File name too long (os error 36)"
  | invalidData => "stream did not contain valid UTF-8"
  | other message => message

inductive FileEntry where
  | file (bytes : Bytes)
  | directory

/-- Files by their places, which are paths from the root without dots. Relative paths begin in the
working directory. -/
structure Files where
  directory : List String := []
  contents : Table Bytes := .empty

namespace Files

def maxNameSize : Nat := 255

def maxPathSize : Nat := 4095

def key (place : List String) : String := "/".intercalate place

def absolute (fs : Files) (path : String) : String := Path.join ("/" ++ key fs.directory) path

def entry? (fs : Files) (place : List String) : Option FileEntry :=
  if place.isPrefixOf fs.directory then some .directory
  else
    match fs.contents.get? (key place) with
    | some bytes => some (.file bytes)
    | none =>
      if fs.contents.keys.any (·.startsWith (key place ++ "/")) then some .directory else none

def checkDirectory (fs : Files) (place : List String) : Except FileError Unit :=
  match fs.entry? place with
  | none => .error .notFound
  | some (.file _) => .error .notADirectory
  | some .directory => .ok ()

def walk (fs : Files) : List String → List String → Except FileError (List String)
  | place, [] => .ok place
  | place, part :: rest =>
    match fs.checkDirectory place with
    | .error e => .error e
    | .ok () =>
      if part = "" ∨ part = "." then walk fs place rest
      else if part = ".." then walk fs place.dropLast rest
      else if maxNameSize < part.utf8ByteSize then .error .nameTooLong
      else walk fs (place ++ [part]) rest

def route (fs : Files) (path : String) : Except FileError (List String × List String) :=
  if path.contains '\x00' then .error .invalidName
  else if path.isEmpty then .error .notFound
  else if maxPathSize < path.utf8ByteSize then .error .nameTooLong
  else .ok (if path.startsWith "/" then [] else fs.directory, path.splitOn "/")

def find (fs : Files) (path : String) : Except FileError FileEntry := do
  let (start, parts) ← fs.route path
  match fs.entry? (← fs.walk start parts) with
  | some entry => .ok entry
  | none => .error .notFound

def read (fs : Files) (path : String) : Except FileError Bytes := do
  match ← fs.find path with
  | .directory => .error .isADirectory
  | .file bytes => .ok bytes

def isPresent (fs : Files) (path : String) : Bool := (fs.find path).isOk

def put (fs : Files) (place : List String) (name : String) (bytes : Bytes) :
    Except FileError Files :=
  if name = "." ∨ name = ".." then .error .isADirectory
  else if maxNameSize < name.utf8ByteSize then .error .nameTooLong
  else
    match fs.entry? (place ++ [name]) with
    | some .directory => .error .isADirectory
    | _ => .ok { fs with contents := fs.contents.insert (key (place ++ [name])) bytes }

/-- Writes a file into a directory that is there. A path with a slash at its end names no file. -/
def write (fs : Files) (path : String) (bytes : Bytes) : Except FileError Files := do
  let (start, parts) ← fs.route path
  let parts := parts.filter (· != "")
  let place ← fs.walk start parts.dropLast
  fs.checkDirectory place
  if path.endsWith "/" then .error .isADirectory
  else fs.put place (parts.getLast?.getD ".") bytes

def add (fs : Files) (path : String) (bytes : Bytes) : Files :=
  let parts := (path.splitOn "/").filter fun part => part != "" && part != "."
  { fs with contents := fs.contents.insert (key (fs.directory ++ parts)) bytes }

end Files

def fileText (r : Except FileError Bytes) : Except FileError String := do
  match ofUtf8? (← r) with
  | some text => .ok text
  | none => .error .invalidData

end Dialogue
