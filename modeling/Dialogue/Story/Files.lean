import Dialogue.Container
import Dialogue.Story.Error
import Dialogue.Value.Json

/-!
Files of a story: dialogue, and the saved state that conversations share. A file is compiled dialogue
when it is a container with at least one bough; any other file is kept as it is.
-/

namespace Dialogue

structure CompiledData where
  bytes : Bytes
  externs : List String
  boughs : List String
deriving Inhabited

def CompiledData.ofBytes (bytes : Bytes) : Except FormatError CompiledData :=
  (Container.parse bytes).map fun c => ⟨bytes, c.externs, c.boughNames⟩

def CompiledData.hasBough (d : CompiledData) (name : String) : Bool := d.boughs.contains name

inductive Asset where
  | compiled (data : CompiledData)
  | uncompiled (bytes : Bytes)

namespace Asset

def ofBytes (bytes : Bytes) : Asset :=
  match CompiledData.ofBytes bytes with
  | .ok d => if d.boughs.isEmpty then uncompiled bytes else compiled d
  | .error _ => uncompiled bytes

def compiled? : Asset → Option CompiledData
  | compiled d => some d
  | uncompiled _ => none

end Asset

abbrev AssetTable := Table CompiledData

namespace AssetTable

def insertBytes (t : AssetTable) (key : String) (bytes : Bytes) : Bool × AssetTable :=
  match (Asset.ofBytes bytes).compiled? with
  | some d => (true, t.insert key d)
  | none => (false, t)

def load (t : AssetTable) (key : String) : Except StoryError CompiledData :=
  match t.get? key with
  | some d => .ok d
  | none => .error (.assetNotFound key)

end AssetTable

structure AssetDirectory where
  root : String
  extension : Option String

namespace AssetDirectory

def path (d : AssetDirectory) (key : String) : String :=
  let path := Path.join d.root key
  match d.extension with
  | some extension => Path.withExtension path extension
  | none => path

def load (d : AssetDirectory) (read : String → Except FileError Bytes) (key : String) :
    Except StoryError CompiledData :=
  match read (d.path key) with
  | .error .notFound => .error (.assetNotFound key)
  | .error e => .error (.file (d.path key) e)
  | .ok bytes =>
    match (Asset.ofBytes bytes).compiled? with
    | some data => .ok data
    | none => .error (.notCompiled key)

end AssetDirectory

end Dialogue

namespace Dialogue.SavedState

def set (s : Snapshot) (name : String) (v : Value) : Except StoryError Snapshot :=
  (s.save name v).mapError (.value name)

def value? (s : Snapshot) (name : String) : Except StoryError (Option Value) :=
  match s.value? name with
  | none => .ok none
  | some (.ok v) => .ok (some v)
  | some (.error e) => .error (.value name e)

def ofText (text : String) : Except StoryError Snapshot :=
  match Snapshot.ofText? text with
  | some s => .ok s
  | none => .error .snapshot

def load (read : String → Except FileError Bytes) (path : String) : Except StoryError Snapshot :=
  match fileText (read path) with
  | .error e => .error (.file path e)
  | .ok text => ofText text

def bytes (s : Snapshot) : Bytes := (utf8 s.text).toArray

def save (s : Snapshot) (files : Files) (path : String) : Except StoryError Files :=
  (files.write path (bytes s)).mapError (.file path)

end Dialogue.SavedState
