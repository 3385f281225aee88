import Dialogue.CommandLine.Console
import Dialogue.Story.Error
import Dialogue.Text

namespace Dialogue

structure Failure where
  message : String
  causes : List String := []
deriving DecidableEq

namespace Failure

def ofFormat (e : FormatError) : Failure := ⟨e.message, e.causes⟩

def ofStory (e : StoryError) : Failure := ⟨e.message, e.causes⟩

def behind (f : Failure) (message : String) : Failure := ⟨message, f.message :: f.causes⟩

def indented (opening indent cause : String) : String :=
  opening ++ ("\n" ++ indent).intercalate (cause.splitOn "\n")

def causeLines : List String → List String
  | [] => []
  | [cause] => [indented "    " "    " cause]
  | causes => causes.zipIdx.map fun (cause, i) =>
      indented (Text.alignRight 5 (toString i) ++ ": ") "       " cause

def lines (f : Failure) : List String :=
  ("Error: " ++ f.message) ::
    (if f.causes.isEmpty then [] else "" :: "Caused by:" :: causeLines f.causes)

end Failure

abbrev Command := ExceptT Failure Console

def Command.ofExcept {ε α : Type} (failure : ε → Failure) (r : Except ε α) : Command α :=
  ExceptT.mk (pure (r.mapError failure))

end Dialogue
