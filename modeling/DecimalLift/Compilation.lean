import DecimalLift.Host

/-!
# Compilations

A compilation loads its roots through a host and, if nothing failed, writes what they become as
text without annotations. If anything failed, or if two roots would write the same file, it writes
nothing.

* `Host.loadRoots` — the trees of the roots that load, with everything that was reported.
* `collisions` (`check_output_collisions`) — an error for each root whose output another root has
  claimed already.
* `Host.compile` (`Compilation.compile`) — the whole compilation, and what it tells (`EmitResult`).
-/

set_option autoImplicit false

namespace DecimalLift

/-- What a compilation did. -/
structure Emit where
  emitted : List String
  report : Report
  /-- Nothing was written because errors were reported. -/
  skipped : Bool
  deriving DecidableEq, Repr

/-- One if writing was skipped or failed, else zero. -/
def Emit.exitCode (e : Emit) : Nat := if e.skipped || e.report.hasErrors then 1 else 0

/-- Loads roots in order. A root that fails leaves an error; the warnings of each root follow. -/
def Host.loadRoots : Host → Report → List String → List Program × Report × Host
  | h, report, [] => ([], report, h)
  | h, report, root :: roots =>
    let (outcome, h) := h.load root
    let (warnings, h) := h.takeDiagnostics
    match outcome with
    | .ok p =>
      let (ps, report, h) := Host.loadRoots h (report.addAll warnings) roots
      (p :: ps, report, h)
    | .error e => Host.loadRoots h ((report.add e.toDiagnostic).addAll warnings) roots

/-- The error for an output that two files claim. -/
def collision (output first second : String) : Diagnostic :=
  .error ("Cannot write file '" ++ output ++ "' because both '" ++ first ++ "' and '" ++ second
    ++ "' emit it") none

/-- An error for each output that was claimed before, naming the file that claimed it last.
`claims` are the outputs claimed so far with their files, the latest first. -/
def collisions (claims : List (String × String)) : List (String × String) → List Diagnostic
  | [] => []
  | (output, file) :: rest =>
    (claims.lookup output).toList.map (fun first => collision output first file)
      ++ collisions ((output, file) :: claims) rest

/-- Writes texts under their names. A failure leaves an error, and the others are written. -/
def Host.writeAll : Host → Report → List (String × String) → List String × Report × Host
  | h, report, [] => ([], report, h)
  | h, report, (output, text) :: rest =>
    match h.write output text with
    | (.ok _, h) =>
      let (emitted, report, h) := Host.writeAll h report rest
      (output :: emitted, report, h)
    | (.error e, h) => Host.writeAll h (report.add e.toDiagnostic) rest

/-- Loads the roots, then writes them all or none. -/
def Host.compile (h : Host) (outDir : Option String) (roots : List String) : Emit × Host :=
  let (programs, report, h) := h.loadRoots .empty roots
  let outputs := programs.map fun p => (Path.outputName outDir p.file, p)
  let report := report.addAll (collisions [] (outputs.map fun (output, p) => (output, p.file)))
  if report.hasErrors then (⟨[], report, true⟩, h)
  else
    let (emitted, report, h) :=
      h.writeAll report (outputs.map fun (output, p) => (output, p.render .untyped))
    (⟨emitted, report, false⟩, h)

end DecimalLift
