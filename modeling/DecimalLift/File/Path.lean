/-!
# Paths

Paths are texts with components between slashes. Empty components and single dots in front of no
other component do not count.

* `Path.split?` — the final component of a path, with the text before it.
* `Path.withExtension` (`with_extension`) — the path with the extension of its final component
  replaced, unless it ends in no name once the old one is gone.
* `Path.join` — a name inside a directory.
* `Path.outputName` (`output_file_name`) — where the text made from a source file goes.
* `Path.steps` — the components one by one, for a walk through directories.
-/

set_option autoImplicit false

namespace DecimalLift.Path

/-- The components between slashes, empty ones included. -/
def components : List Char → List (List Char)
  | [] => [[]]
  | c :: cs =>
    if c = '/' then [] :: components cs
    else
      match components cs with
      | first :: rest => (c :: first) :: rest
      | [] => [[c]]

/-- A reversed path without trailing slashes, and without single dots behind a slash. -/
def trimReversed : List Char → List Char
  | '/' :: rest => trimReversed rest
  | '.' :: '/' :: rest => trimReversed ('/' :: rest)
  | cs => cs

/-- The final component with the text before it. There is none if the path ends in no name: it is
empty, the root, a single dot or a step to the parent. -/
def split? (path : String) : Option (List Char × List Char) :=
  let reversed := trimReversed path.toList.reverse
  let name := (reversed.takeWhile (· ≠ '/')).reverse
  let before := (reversed.dropWhile (· ≠ '/')).reverse
  if name = [] ∨ name = ['.'] ∨ name = ['.', '.'] then none else some (before, name)

/-- A name without its extension. A dot in front starts no extension. -/
def stem (name : List Char) : List Char :=
  match name.reverse.dropWhile (· ≠ '.') with
  | _ :: before => if before.isEmpty then name else before.reverse
  | [] => name

/-- What stands behind the last dot of a name, nothing if the name is its own stem. -/
def extension (name : List Char) : List Char := name.drop ((stem name).length + 1)

/-- A path shortened by the length of its extension. If the final component ends the path, the dot
before the extension is the last character left, and a name such as `..x` has become a step to the
parent. -/
def shorten (path : String) : String :=
  match split? path with
  | some (_, name) => String.ofList (path.toList.take (path.length - (extension name).length))
  | none => path

/-- The path with its extension replaced: it is shortened, and if it still ends in a name, the new
extension follows the stem of that name. -/
def withExtension (path newExtension : String) : String :=
  let short := shorten path
  match split? short with
  | some (before, name) => String.ofList (before ++ stem name) ++ "." ++ newExtension
  | none => short

/-- A name inside a directory. -/
def join (dir name : String) : String :=
  if dir.isEmpty then name
  else if dir.toList.getLast? = some '/' then dir ++ name
  else dir ++ "/" ++ name

/-- Where the text made from a source file goes: next to it, or into `outDir`. -/
def outputName (outDir : Option String) (path : String) : String :=
  let output := withExtension path "js"
  match outDir, split? output with
  | some dir, some (_, name) => join dir (String.ofList name)
  | _, _ => output

/-- The components of a path one by one, single dots included and empty ones left out. -/
def steps (path : String) : List String :=
  ((components path.toList).filter (!·.isEmpty)).map String.ofList

def isAbsolute (path : String) : Bool := path.toList.head? == some '/'

/-- Whether a path ends in a slash, a single dot or a step to the parent, and so means a
directory. -/
def meansDirectory (path : String) : Bool :=
  path.toList.getLast? == some '/'
    || (steps path).getLast? == some "." || (steps path).getLast? == some ".."

end DecimalLift.Path
