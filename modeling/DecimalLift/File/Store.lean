import DecimalLift.Diagnostic
import DecimalLift.File.Disk

/-!
# Stores of source files

* `FileTable` — texts under names, in memory.
* `Store` (`InMemoryHost`, `FileSystemHost`) — a table in memory or a disk, with names that must not
  be written.
* `Store.read` (`read_file`), `Store.write` (`write_file`) — with failures worded for the user.
-/

set_option autoImplicit false

namespace DecimalLift

/-- Texts under names; each name stands once. -/
structure FileTable where
  entries : List (String × String)
  deriving DecidableEq, Repr

namespace FileTable

def empty : FileTable := ⟨[]⟩

def get? (t : FileTable) (name : String) : Option String := t.entries.lookup name

def put (t : FileTable) (name text : String) : FileTable :=
  ⟨t.entries.filter (·.1 != name) ++ [(name, text)]⟩

def ofList (entries : List (String × String)) : FileTable :=
  entries.foldl (fun t (name, text) => t.put name text) empty

end FileTable

inductive Files where
  | memory (table : FileTable)
  | disk (disk : Disk)
  deriving DecidableEq, Repr

structure Store where
  files : Files
  /-- Names that must not be written. -/
  locked : List String
  deriving DecidableEq, Repr

namespace Store

def unreadable (name cause : String) : SourceError :=
  .file ("Cannot read file '" ++ name ++ "': " ++ cause)

def read (s : Store) (name : String) : Except SourceError String :=
  match s.files with
  | .memory table =>
    match table.get? name with
    | some text => .ok text
    | none => .error (unreadable name "not found")
  | .disk disk =>
    match disk.read name with
    | .ok text => .ok text
    | .error e => .error (unreadable name e.text)

/-- Writes a file. On a disk, the directory that holds it is made first, and stays if the writing
fails. -/
def writeFiles (files : Files) (name text : String) : Except SourceError Unit × Files :=
  match files with
  | .memory table => (.ok (), .memory (table.put name text))
  | .disk disk =>
    match disk.makeDirectories name with
    | (.error e, made) => (.error (.file e.text), .disk made)
    | (.ok _, made) =>
      match made.write name text with
      | .ok written => (.ok (), .disk written)
      | .error e =>
        (.error (.file ("Cannot write file '" ++ name ++ "': " ++ e.text)), .disk made)

/-- Writes a file, unless its name is locked. -/
def write (s : Store) (name text : String) : Except SourceError Unit × Store :=
  if s.locked.contains name then (.error (.file ("write refused: " ++ name)), s)
  else
    let (outcome, files) := writeFiles s.files name text
    (outcome, { s with files := files })

end Store

end DecimalLift
