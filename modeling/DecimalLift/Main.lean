import DecimalLift.CommandLine

/-!
# The program

Looks at the files and directories that the command names, runs the command on them, and carries
out what it did.
-/

set_option autoImplicit false

namespace DecimalLift

/-- Notes what stands under a path: a file with its bytes, a directory, or nothing. -/
def Disk.observe (d : Disk) (place : Place) : IO Disk := do
  try
    let bytes ← IO.FS.readBinFile (Disk.pathOf place)
    return d.put place (.bytes bytes.data.toList)
  catch
    | .noFileOrDirectory .. => return d
    | _ => return { d with directories := d.directories ++ [place] }

/-- Notes what stands under a path and under every path on the way to it. -/
def Disk.observeAlong (d : Disk) (path : String) : IO Disk := do
  let mut disk := d
  let mut here := Disk.origin path
  for step in (Path.steps path).filter (· != ".") do
    here := if step = ".." then Place.parent here else here ++ [step]
    disk ← disk.observe here
  return disk

/-- The part of the file system that a command can see. -/
def Command.observe (c : Command) : IO Disk := do
  let outputs := match c.verb with
    | .compile => c.files.map (Path.outputName c.target)
    | .transform => []
  let mut disk := Disk.empty
  for path in c.files ++ c.config.toList ++ c.target.toList ++ outputs do
    disk ← disk.observeAlong path
  return disk

/-- Makes the new directories, and writes the files that have a text. -/
def Disk.carryOut (before after : Disk) : IO Unit := do
  for place in after.directories do
    if !before.isDirectory place then IO.FS.createDirAll (Disk.pathOf place)
  for (place, content) in after.files do
    match content with
    | .text text => IO.FS.writeFile (Disk.pathOf place) text
    | .bytes _ => pure ()

def usage : String :=
  "usage: transform FILES... [-o FILE] [--config FILE] [--strict]\n" ++
  "       compile FILES... [--out-dir DIR] [--config FILE] [--strict]"

end DecimalLift

open DecimalLift in
def main (arguments : List String) : IO UInt32 := do
  match Command.parse? arguments with
  | none =>
    IO.eprintln usage
    return 2
  | some command =>
    let disk ← command.observe
    let outcome := command.run disk
    disk.carryOut outcome.disk
    IO.print outcome.output
    IO.eprint outcome.errors
    return UInt32.ofNat outcome.exitCode
