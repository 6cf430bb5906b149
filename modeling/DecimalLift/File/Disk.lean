import DecimalLift.File.Path

/-!
# Directories and files

A tree of directories as a table: the files with their contents, and the directories, each under
the steps that lead to it from the working directory.

* `Disk.walk` — the directory that a list of steps leads to.
* `Disk.read`, `Disk.write` — reading and writing a file under a path.
* `Disk.makeDirectories` (`create_dir_all`) — making a directory and those above it.
* `Disk.changesSince` — the files that are new or have another text.
-/

set_option autoImplicit false

namespace DecimalLift

/-- Why a file operation failed. -/
inductive FileError where
  | notFound
  | alreadyExists
  | notDirectory
  | isDirectory
  | notText
  deriving DecidableEq, Repr

def FileError.text : FileError → String
  | .notFound => "No such file or directory (os error 2)"
  | .alreadyExists => "File exists (os error 17)"
  | .notDirectory => "Not a directory (os error 20)"
  | .isDirectory => "Is a directory (os error 21)"
  | .notText => "stream did not contain valid UTF-8"

/-- The content of a file: text, or bytes that may be none. -/
inductive Content where
  | text (value : String)
  | bytes (value : List UInt8)
  deriving DecidableEq, Repr

def Content.text? : Content → Option String
  | .text value => some value
  | .bytes value => String.fromUTF8? ⟨value.toArray⟩

/-- Steps from the working directory; a path from the root starts with the step `/`, one from a
directory above with steps `..`. -/
abbrev Place := List String

/-- Whether a place is the working directory or one above it. -/
def Place.isAncestor (p : Place) : Bool := p.all (· == "..")

/-- The directory that holds a place; the root holds itself. -/
def Place.parent (p : Place) : Place :=
  if p.isAncestor then p ++ [".."]
  else if p == ["/"] then p
  else p.dropLast

/-- Whether a place lies in the working directory. -/
def Place.isInside (p : Place) : Bool := p.head? != some ".." && p.head? != some "/"

structure Disk where
  directories : List Place
  files : List (Place × Content)
  deriving DecidableEq, Repr

namespace Disk

def empty : Disk := ⟨[], []⟩

/-- The working directory, those above it and the root are always there. -/
def isDirectory (d : Disk) (p : Place) : Bool :=
  Place.isAncestor p || p == ["/"] || d.directories.contains p

def file? (d : Disk) (p : Place) : Option Content := d.files.lookup p

/-- Where a walk along a path starts. -/
def origin (path : String) : Place := if Path.isAbsolute path then ["/"] else []

/-- One step from a directory to another. -/
def enter (d : Disk) (here : Place) (step : String) : Except FileError Place :=
  if step = "." then .ok here
  else if step = ".." then .ok (Place.parent here)
  else
    let next := here ++ [step]
    if d.isDirectory next then .ok next
    else if (d.file? next).isSome then .error .notDirectory
    else .error .notFound

/-- The directory that steps lead to. -/
def walk (d : Disk) (start : Place) (steps : List String) : Except FileError Place :=
  steps.foldlM d.enter start

/-- The text of a file. -/
def read (d : Disk) (path : String) : Except FileError String := do
  let steps := Path.steps path
  if path.isEmpty then throw .notFound
  if Path.meansDirectory path then
    let _ ← d.walk (origin path) steps
    throw .isDirectory
  let here ← d.walk (origin path) steps.dropLast
  let place := here ++ steps.getLast?.toList
  if d.isDirectory place then throw .isDirectory
  match d.file? place with
  | none => throw .notFound
  | some content =>
    match content.text? with
    | some text => return text
    | none => throw .notText

/-- Puts a content under a place, in front of nothing else. -/
def put (d : Disk) (p : Place) (content : Content) : Disk :=
  { d with files := (d.files.filter (·.1 != p)) ++ [(p, content)] }

/-- Writes a file into a directory that is there. -/
def writeContent (d : Disk) (path : String) (content : Content) : Except FileError Disk := do
  let steps := Path.steps path
  if path.isEmpty then throw .notFound
  let here ← d.walk (origin path) steps.dropLast
  if Path.meansDirectory path then throw .isDirectory
  let place := here ++ steps.getLast?.toList
  if d.isDirectory place then throw .isDirectory
  return d.put place content

def write (d : Disk) (path text : String) : Except FileError Disk :=
  d.writeContent path (.text text)

/-- Makes the directory `last` inside the one that steps lead to; one that is there already is
left alone. -/
def makeDirectory (d : Disk) (start : Place) (steps : List String) (last : String) :
    Except FileError Disk := do
  let here ← d.walk start steps
  let next := here ++ [last]
  if last = ".." || d.isDirectory next then return d
  else if (d.file? next).isSome then throw .alreadyExists
  else return { d with directories := d.directories ++ [next] }

/-- Makes the directory that steps, the last one first, lead to. Those above it are made if one of
them is missing, and stay if the making fails behind them. -/
def makeSteps (d : Disk) (start : Place) : List String → Except FileError Unit × Disk
  | [] => (.ok (), d)
  | last :: above =>
    match d.makeDirectory start above.reverse last with
    | .ok made => (.ok (), made)
    | .error .notFound =>
      match makeSteps d start above with
      | (.ok _, ready) =>
        match ready.makeDirectory start above.reverse last with
        | .ok made => (.ok (), made)
        | .error e => (.error e, ready)
      | failed => failed
    | .error e => (.error e, d)

/-- Makes the directory that holds a path's final component, and those above it. -/
def makeDirectories (d : Disk) (path : String) : Except FileError Unit × Disk :=
  d.makeSteps (origin path) ((Path.steps path).filter (· != ".")).dropLast.reverse

/-- A disk with given files, the directories that hold them included. -/
def ofFiles (files : List (String × Content)) : Disk :=
  files.foldl
    (fun d (path, content) =>
      let made := (d.makeDirectories path).2
      (made.writeContent path content).toOption.getD made)
    empty

/-- The path of a place. -/
def pathOf (p : Place) : String := String.intercalate "/" p

/-- The files in the working directory that are new or have another text than before. A file that
held bytes before is passed over. -/
def changesSince (before after : Disk) : List (String × String) :=
  (after.files.filter fun (place, _) => Place.isInside place).filterMap fun (place, content) =>
    match content, before.file? place with
    | .text new, some (.text old) => if new = old then none else some (pathOf place, new)
    | .text new, none => some (pathOf place, new)
    | _, _ => none

end Disk

end DecimalLift
