import DecimalLift.Location

/-!
# Messages for the user

* `Diagnostic` — a message with a severity, perhaps a place, and notes.
* `Report` (`ErrorReporter`) — the messages of a run in the order in which they were raised, with
  their counts and a one-line summary.
* `SourceError` (`CompilerError`) — why a file could not be read, split into tokens or parsed.
-/

set_option autoImplicit false

namespace DecimalLift

inductive Severity where
  | error
  | warning
  | note
  deriving DecidableEq, Repr

def Severity.text : Severity → String
  | .error => "error"
  | .warning => "warning"
  | .note => "note"

structure Diagnostic where
  severity : Severity
  message : String
  location : Option Location
  notes : List String
  deriving DecidableEq, Repr

namespace Diagnostic

def error (message : String) (location : Option Location) : Diagnostic :=
  ⟨.error, message, location, []⟩

def warning (message : String) (location : Option Location) : Diagnostic :=
  ⟨.warning, message, location, []⟩

def withNote (d : Diagnostic) (note : String) : Diagnostic :=
  { d with notes := d.notes ++ [note] }

/-- The message, then each note on a line of its own, indented by two blanks. -/
def flattened (d : Diagnostic) : String :=
  d.notes.foldl (fun text note => text ++ "\n  " ++ note) d.message

/-- A message with a real place starts with `file (line,column): `. -/
def text (d : Diagnostic) : String :=
  match d.location with
  | some l =>
    if l.isSynthesized then d.flattened
    else l.file ++ " (" ++ toString l.line ++ "," ++ toString l.column ++ "): " ++ d.flattened
  | none => d.flattened

end Diagnostic

/-- The messages of a run, oldest first. -/
structure Report where
  diagnostics : List Diagnostic
  deriving DecidableEq, Repr

namespace Report

def empty : Report := ⟨[]⟩

def add (r : Report) (d : Diagnostic) : Report := ⟨r.diagnostics ++ [d]⟩

def addAll (r : Report) (ds : List Diagnostic) : Report := ⟨r.diagnostics ++ ds⟩

def count (r : Report) (s : Severity) : Nat :=
  r.diagnostics.countP (·.severity = s)

def errorCount (r : Report) : Nat := r.count .error

def warningCount (r : Report) : Nat := r.count .warning

def hasErrors (r : Report) : Bool := 0 < r.errorCount

/-- `1 error`, `2 errors`. -/
def counted (n : Nat) (noun : String) : String :=
  toString n ++ " " ++ noun ++ (if n = 1 then "" else "s")

/-- How many errors and warnings there are; notes are not counted. -/
def summary (r : Report) : String :=
  match r.errorCount, r.warningCount with
  | 0, 0 => "No errors or warnings"
  | 0, w => counted w "warning"
  | e, 0 => counted e "error"
  | e, w => counted e "error" ++ " and " ++ counted w "warning"

end Report

/-- Why a source file did not become a tree. -/
inductive SourceError where
  | lexical (message : String) (location : Location)
  | grammatical (message : String) (location : Location)
  | file (message : String)
  deriving DecidableEq, Repr

namespace SourceError

/-- The cause alone, without the place. -/
def message : SourceError → String
  | .lexical m _ => m
  | .grammatical m _ => m
  | .file m => m

def location? : SourceError → Option Location
  | .lexical _ l => some l
  | .grammatical _ l => some l
  | .file _ => none

/-- The stage that failed, the place if there is one, and the cause. -/
def text : SourceError → String
  | .lexical m l => "Lexical error at " ++ l.text ++ ": " ++ m
  | .grammatical m l => "Parse error at " ++ l.text ++ ": " ++ m
  | .file m => "IO error: " ++ m

def toDiagnostic (e : SourceError) : Diagnostic := .error e.message e.location?

end SourceError

end DecimalLift
