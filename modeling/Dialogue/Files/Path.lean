namespace Dialogue.Path

/-- A path below a directory. An absolute path stays as it is. -/
def join (root path : String) : String :=
  if path.startsWith "/" then path
  else if root.isEmpty || root.endsWith "/" then root ++ path
  else root ++ "/" ++ path

/-- A reversed path without separators and dots for the directory itself at its end. -/
def trimEnd : List Char → List Char
  | '/' :: rest => trimEnd rest
  | '.' :: '/' :: rest => trimEnd rest
  | rest => rest

def splitName (path : List Char) : List Char × List Char :=
  let trimmed := trimEnd path.reverse
  ((trimmed.dropWhile (· != '/')).reverse, (trimmed.takeWhile (· != '/')).reverse)

def isFileName (name : List Char) : Bool := !([[], ['.'], ['.', '.']].contains name)

def stem (name : List Char) : List Char :=
  let before := (name.reverse.dropWhile (· != '.')).drop 1
  if before.isEmpty then name else before.reverse

def extension (name : List Char) : List Char :=
  if stem name = name then [] else (name.reverse.takeWhile (· != '.')).reverse

def cutExtension (path : List Char) : List Char :=
  path.take (path.length - (extension (splitName path).2).length)

/-- The path with the extension of its file name replaced; an empty extension is left out, and none
holds a slash, which is refused with a panic. Paths without a file name stay as they are, also if only
the cut leaves them without one. -/
def withExtension (path extension : String) : String :=
  let cut := cutExtension path.toList
  let (directory, name) := splitName cut
  if isFileName name then
    String.ofList (directory ++ stem name) ++ (if extension.isEmpty then "" else "." ++ extension)
  else String.ofList cut

def split? (path : String) : Option (String × String) :=
  let (directory, name) := splitName path.toList
  if isFileName name then
    let parent := (trimEnd directory.reverse).reverse
    some (if parent.isEmpty && directory.head? == some '/' then "/" else String.ofList parent,
      String.ofList name)
  else none

end Dialogue.Path
