import DecimalLift.Compilation

/-!
# The command line

Two commands: `transform` prints transformed modules or writes one of them to a file, `compile`
runs a compilation.

* `Command.parse?` (`Cli`) — the command that arguments describe. Options may stand anywhere, and
  `--` ends them.
* `Command.run` (`transform`, `compile`) — what a command writes and prints, on a disk.
-/

set_option autoImplicit false

namespace DecimalLift

inductive Verb where
  | transform
  | compile
  deriving DecidableEq, Repr

/-- A command with its arguments. -/
structure Command where
  verb : Verb
  files : List String
  /-- The output file of `transform`, or the output directory of `compile`. -/
  target : Option String
  config : Option String
  strict : Bool
  deriving DecidableEq, Repr

namespace Command

/-- The options that name the target of a command. -/
def targetOptions : Verb → List String
  | .transform => ["--output", "-o"]
  | .compile => ["--out-dir"]

/-- The value of an option that is written together with its value: `--name=value`, `-nvalue` or
`-n=value`. -/
def attached? (option argument : String) : Option String :=
  let name := option.toList
  let rest := argument.toList.drop name.length
  if !name.isPrefixOf argument.toList || rest.isEmpty then none
  else
    match rest with
    | '=' :: value => some (String.ofList value)
    | value => if name.length = 2 then some (String.ofList value) else none

def withTarget? (c : Command) (value : String) : Option Command :=
  if c.target.isSome then none else some { c with target := some value }

def withConfig? (c : Command) (value : String) : Option Command :=
  if c.config.isSome then none else some { c with config := some value }

def withFiles (c : Command) (files : List String) : Command := { c with files := c.files ++ files }

/-- Whether an argument looks like an option. -/
def isOption (argument : String) : Bool :=
  match argument.toList with
  | '-' :: _ :: _ => true
  | _ => false

/-- Takes an argument that stands alone: a file, or an option together with its value. -/
def withArgument? (c : Command) (argument : String) : Option Command :=
  if isOption argument then
    match attached? "--config" argument with
    | some value => c.withConfig? value
    | none => ((targetOptions c.verb).findSome? (attached? · argument)).bind c.withTarget?
  else some (c.withFiles [argument])

/-- Reads the arguments behind the verb into `c`. -/
def readArguments : Command → List String → Option Command
  | c, [] => some c
  | c, "--" :: rest => some (c.withFiles rest)
  | c, "--strict" :: rest => if c.strict then none else readArguments { c with strict := true } rest
  | c, "--verbose" :: rest => readArguments c rest
  | c, "-v" :: rest => readArguments c rest
  | c, [argument] => c.withArgument? argument
  | c, argument :: value :: rest =>
    if argument = "--config" then do readArguments (← c.withConfig? value) rest
    else if (targetOptions c.verb).contains argument then do
      readArguments (← c.withTarget? value) rest
    else do readArguments (← c.withArgument? argument) (value :: rest)

/-- The command that arguments describe; there has to be a file. -/
def parse? (arguments : List String) : Option Command := do
  let verb :: rest := arguments.dropWhile (fun a => a == "-v" || a == "--verbose") | none
  let verb ←
    if verb = "transform" then some Verb.transform
    else if verb = "compile" then some .compile
    else none
  let c ← readArguments ⟨verb, [], none, none, false⟩ rest
  if c.files.isEmpty then none else some c

end Command

/-- What a command leaves behind. -/
structure Outcome where
  exitCode : Nat
  output : String
  errors : String
  disk : Disk
  deriving DecidableEq, Repr

/-- A failure with what was going on, from the outside in. -/
def Outcome.failure (disk : Disk) (message : String) : Outcome :=
  ⟨1, "", "Error: " ++ message ++ "\n", disk⟩

namespace Command

/-- The configuration of a command: that of its file, or the standard one. -/
def loadConfig (c : Command) (disk : Disk) : Except String Config := do
  let config ← match c.config with
    | none => pure Config.standard
    | some path =>
      let loaded : Except ConfigError Config :=
        match disk.read path with
        | .error e => .error (.unreadable path e.text)
        | .ok text => Config.load text
      loaded.mapError fun e => "loading rewrite config " ++ path ++ ": " ++ e.text
  return if c.strict then { config with policy := .strict } else config

/-- The transformed texts of files, one after another. The first failure counts. -/
def transformAll (config : Config) (disk : Disk) : List String → Except String String
  | [] => .ok ""
  | path :: paths => do
    let source ← (disk.read path).mapError fun e => "reading " ++ path ++ ": " ++ e.text
    let text ← (transformSource config source path).mapError fun e =>
      "transforming " ++ path ++ ": " ++ e.text
    return text ++ (← transformAll config disk paths)

def runTransform (c : Command) (disk : Disk) : Outcome :=
  if c.target.isSome && 1 < c.files.length then
    .failure disk "--output can only be used with a single input file"
  else
    match (do transformAll (← c.loadConfig disk) disk c.files : Except String String) with
    | .error message => .failure disk message
    | .ok text =>
      match c.target with
      | none => ⟨0, text, "", disk⟩
      | some path =>
        match disk.write path text with
        | .ok disk => ⟨0, "", "", disk⟩
        | .error e => .failure disk ("writing " ++ path ++ ": " ++ e.text)

/-- The disk of a host that stands on one. -/
def diskOf (h : Host) (otherwise : Disk) : Disk :=
  match h.store.files with
  | .disk disk => disk
  | .memory _ => otherwise

def runCompile (c : Command) (disk : Disk) : Outcome :=
  match c.loadConfig disk with
  | .error message => .failure disk message
  | .ok config =>
    let host : Host := ⟨⟨.disk disk, []⟩, [.ofConfig config]⟩
    let (emit, host) := host.compile c.target c.files
    let lines := emit.report.diagnostics.map (·.text ++ "\n")
    let skipped :=
      if emit.skipped then
        "Emit skipped: " ++ toString emit.report.errorCount ++ " error(s)\n"
      else ""
    ⟨emit.exitCode, "", String.join lines ++ skipped, diskOf host disk⟩

/-- Runs a command on a disk. -/
def run (c : Command) (disk : Disk) : Outcome :=
  match c.verb with
  | .transform => c.runTransform disk
  | .compile => c.runCompile disk

end Command

end DecimalLift
