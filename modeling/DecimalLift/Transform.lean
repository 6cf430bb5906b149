import DecimalLift.Binding
import DecimalLift.Lift.Walk
import DecimalLift.Parse.Statement
import DecimalLift.Tree.Layout

/-!
# Transforming a module

* `TransformError` — why a module was not transformed.
* `Program.transform` (`transform_program`) — bind the decimal type, then walk the program.
* `transformSource` (`transform_source`) — from text to text: parse, transform, lay out.
-/

set_option autoImplicit false

namespace DecimalLift

inductive TransformError where
  | unsupported (cause : Unsupported)
  | source (cause : SourceError)
  | config (cause : ConfigError)
  deriving DecidableEq, Repr

namespace TransformError

def text : TransformError → String
  | .unsupported u => "Unsupported node kind: " ++ u.kind
  | .source e => e.text
  | .config e => e.text

def location? : TransformError → Option Location
  | .unsupported u => some u.location
  | .source e => e.location?
  | .config _ => none

def toDiagnostic : TransformError → Diagnostic
  | .unsupported u =>
    (Diagnostic.error (text (.unsupported u)) (some u.location)).withNote
      "Only numeric literals, arithmetic and calls can be converted to fixed point"
  | .source e => e.toDiagnostic
  | .config e => .error e.text none

end TransformError

/-- What a transformation has done. -/
structure TransformReport where
  binding : BindingOutcome
  counts : WalkCounts
  deriving DecidableEq, Repr

namespace Program

/-- Binds the decimal type and lifts the arithmetic of a program. -/
def transform (config : Config) (p : Program) :
    Except TransformError (Program × TransformReport) :=
  let (binding, bound, nextId) := p.bindType config.rules p.nextId
  match Walk.program config bound (.start nextId) with
  | .ok walked s => .ok ({ walked with nextId := s.nextId }, ⟨binding, s.counts⟩)
  | .error u _ => .error (.unsupported u)

/-- The transformed tree of a source text. -/
def parseTransformed (config : Config) (source file : String) :
    Except TransformError (Program × TransformReport) :=
  match Program.parse source file with
  | .ok p => p.transform config
  | .error e => .error (.source e)

end Program

/-- The text of a transformed module, annotations included. -/
def transformSource (config : Config) (source file : String) : Except TransformError String := do
  let (p, _) ← Program.parseTransformed config source file
  return p.render .typed

end DecimalLift
