import DecimalLift.Diagnostic
import DecimalLift.Rules
import DecimalLift.Tree

/-!
# Binding the decimal type

* `Program.bindsType` (`has_precision_import`) — whether an import at the top level binds the
  decimal type.
* `Program.bindType` (`ensure_precision_import`) — a program in which the type is bound; if its name
  is free, a declaration is added in front.
* `BindingOutcome` (`ImportOutcome`) — what was done; a name that another module has taken
  (`conflicting_import`) gives a warning.
-/

set_option autoImplicit false

namespace DecimalLift

inductive BindingOutcome where
  | present
  | added
  /-- An import from another module binds the name. -/
  | taken (moduleName : String) (location : Location)
  deriving DecidableEq, Repr

/-- The warning for a name that is taken. -/
def BindingOutcome.diagnostic? (rules : Rules) : BindingOutcome → Option Diagnostic
  | .taken moduleName location =>
    some ((Diagnostic.warning
      ("'" ++ rules.typeName ++ "' is already imported from '" ++ moduleName
        ++ "'; rewritten code will use that binding") (some location)).withNote
      ("Expected an import from '" ++ rules.moduleName ++ "'"))
  | _ => none

/-- Whether an import binds the name of the decimal type. -/
def ImportDeclaration.bindsName (rules : Rules) (d : ImportDeclaration) : Bool :=
  d.boundNames.contains rules.typeName

/-- Whether an import binds the decimal type from its own module. -/
def ImportDeclaration.bindsType (rules : Rules) (d : ImportDeclaration) : Bool :=
  d.moduleName == rules.moduleName && d.bindsName rules

/-- The import of the decimal type. -/
def Rules.importDeclaration (rules : Rules) : ImportDeclaration where
  defaultBinding := some rules.typeName
  namespaceBinding := none
  named := []
  moduleName := rules.moduleName
  quote := .double
  rawName := none

namespace Program

/-- Whether an import at the top level binds the decimal type from its own module. -/
def bindsType (rules : Rules) (p : Program) : Bool :=
  p.importDeclarations.any (·.bindsType rules)

/-- Module and place of an import from another module that binds the type's name. -/
def takesName? (rules : Rules) : Statement → Option (String × Location)
  | .imports n d =>
    if d.moduleName != rules.moduleName && d.bindsName rules then some (d.moduleName, n.span.start)
    else none
  | _ => none

/-- The program with the type bound, and the next id. -/
def bindType (rules : Rules) (p : Program) (nextId : UInt32) :
    BindingOutcome × Program × UInt32 :=
  if p.bindsType rules then (.present, p, nextId)
  else
    match p.statements.findSome? (takesName? rules) with
    | some (moduleName, location) => (.taken moduleName location, p, nextId)
    | none =>
      let added := Statement.imports ⟨nextId, .synthesized⟩ rules.importDeclaration
      (.added, { p with statements := added :: p.statements }, nextId + 1)

end Program

end DecimalLift
