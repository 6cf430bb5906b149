import DecimalLift.File.Store
import DecimalLift.Transform

/-!
# Hosts

A host (`CompilerHost`) gives a compilation its source files as trees. Each layer around the store
(`TransformingHost`) transforms the trees that come out of the layers inside it, and keeps the
warnings until they are asked for.

* `Host.load` (`get_source_file`) — the tree of a file, transformed by every layer.
* `Host.takeDiagnostics` (`take_diagnostics`) — the warnings since the last call, those of inner
  layers first.
-/

set_option autoImplicit false

namespace DecimalLift

/-- A transformation of every tree that passes, with the warnings not yet taken. -/
structure Layer where
  config : Config
  pending : List Diagnostic
  deriving DecidableEq, Repr

def Layer.ofConfig (config : Config) : Layer := ⟨config, []⟩

/-- A store inside layers, the outermost one first. -/
structure Host where
  store : Store
  layers : List Layer
  deriving DecidableEq, Repr

/-- The tree of a file as it comes out of the layers, and the layers with their new warnings. A
failure leaves the warnings of the layers that were passed. -/
def Layer.loadThrough (store : Store) (file : String) :
    List Layer → Except TransformError Program × List Layer
  | [] =>
    match store.read file with
    | .error e => (.error (.source e), [])
    | .ok source => ((Program.parse source file).mapError .source, [])
  | layer :: inner =>
    match Layer.loadThrough store file inner with
    | (.error e, inner) => (.error e, layer :: inner)
    | (.ok p, inner) =>
      match p.transform layer.config with
      | .error e => (.error e, layer :: inner)
      | .ok (p, report) =>
        let warnings := (report.binding.diagnostic? layer.config.rules).toList
        (.ok p, { layer with pending := layer.pending ++ warnings } :: inner)

namespace Host

/-- The tree of a file, transformed by every layer. -/
def load (h : Host) (file : String) : Except TransformError Program × Host :=
  let (outcome, layers) := Layer.loadThrough h.store file h.layers
  (outcome, { h with layers := layers })

/-- The warnings since the last call, those of inner layers first. -/
def takeDiagnostics (h : Host) : List Diagnostic × Host :=
  (h.layers.reverse.flatMap (·.pending),
    { h with layers := h.layers.map fun l => { l with pending := [] } })

def read (h : Host) (name : String) : Except SourceError String := h.store.read name

def write (h : Host) (name text : String) : Except SourceError Unit × Host :=
  let (outcome, store) := h.store.write name text
  (outcome, { h with store := store })

end Host

end DecimalLift
