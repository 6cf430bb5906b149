import DecimalLift.Json.Value
import DecimalLift.Operator

/-!
# Rules and configuration

* `Rules` (`RewriteRules`) — the decimal type, the module it comes from, the methods for operators
  and the calls it takes over. The first rule that fits wins (`method_for`, `call_target`).
* `Rules.check` (`validate`) — refuses names that could not be written as identifiers, an empty
  module name and a second method for an operator.
* `Config` (`TransformConfig`) — rules with a policy (`ClassifyPolicy`) for operands that cannot be
  converted, and its reading from JSON (`from_json`).
-/

set_option autoImplicit false

namespace DecimalLift

/-- The method that stands for an operator. -/
structure OperatorRule where
  operator : ArithmeticOp
  method : String
  deriving DecidableEq, Repr

/-- `scope.method(…)` becomes `T.target(…)` for the decimal type `T`. -/
structure CallRule where
  scope : String
  method : String
  target : String
  deriving DecidableEq, Repr

structure Rules where
  /-- The name that the decimal type has in a program. -/
  typeName : String
  /-- The module that it is imported from. -/
  moduleName : String
  operators : List OperatorRule
  calls : List CallRule
  deriving DecidableEq, Repr

/-- What to do with arithmetic that has an operand of a kind that cannot be converted. -/
inductive Policy where
  /-- Leave it as it is. -/
  | passthrough
  /-- Refuse the program. -/
  | strict
  deriving DecidableEq, Repr

def Policy.text : Policy → String
  | .passthrough => "passthrough"
  | .strict => "strict"

structure Config where
  rules : Rules
  policy : Policy
  deriving DecidableEq, Repr

/-- Why a configuration is refused. -/
inductive ConfigError where
  | unreadable (path cause : String)
  | malformed
  | typeName (name : String)
  | emptyModule
  | methodName (name : String) (operator : ArithmeticOp)
  | repeatedOperator (operator : ArithmeticOp)
  | callName (rule : CallRule) (name : String)
  deriving DecidableEq, Repr

namespace ConfigError

def cause : ConfigError → String
  | .unreadable path cause => "cannot read " ++ path ++ ": " ++ cause
  | .malformed => "malformed JSON"
  | .typeName name => "type name '" ++ name ++ "' is not an identifier"
  | .emptyModule => "module specifier is empty"
  | .methodName name op =>
    "method '" ++ name ++ "' for operator '" ++ op.text ++ "' is not an identifier"
  | .repeatedOperator op => "operator '" ++ op.text ++ "' is mapped more than once"
  | .callName rule name =>
    "call rule " ++ rule.scope ++ "." ++ rule.method ++ " -> " ++ rule.target ++ ": '" ++ name
      ++ "' is not an identifier"

def text (e : ConfigError) : String := "Invalid rewrite configuration: " ++ e.cause

end ConfigError

namespace Rules

/-- Four operators and three functions of `Math`, for the type of `decimal.js`. -/
def standard : Rules where
  typeName := "Decimal"
  moduleName := "decimal.js"
  operators := [⟨.div, "div"⟩, ⟨.mul, "times"⟩, ⟨.add, "plus"⟩, ⟨.sub, "minus"⟩]
  calls := [⟨"Math", "sin", "sin"⟩, ⟨"Math", "cos", "cos"⟩, ⟨"Math", "tan", "tan"⟩]

/-- The method for an arithmetic operator. -/
def arithmeticMethod? (r : Rules) (op : ArithmeticOp) : Option String :=
  (r.operators.find? (·.operator == op)).map (·.method)

/-- The method for an operator, if it is arithmetic and has one. -/
def method? (r : Rules) (op : BinaryOp) : Option String :=
  (ArithmeticOp.ofBinaryOp? op).bind r.arithmeticMethod?

/-- The method of the decimal type that takes over `scope.method`. -/
def target? (r : Rules) (scope method : String) : Option String :=
  (r.calls.find? fun c => c.scope == scope && c.method == method).map (·.target)

/-- Methods are identifiers, and no operator has two; `seen` are the operators before. -/
def checkOperators (seen : List ArithmeticOp) : List OperatorRule → Except ConfigError Unit
  | [] => .ok ()
  | rule :: rest =>
    if !Text.isName rule.method then .error (.methodName rule.method rule.operator)
    else if seen.contains rule.operator then .error (.repeatedOperator rule.operator)
    else checkOperators (rule.operator :: seen) rest

/-- The three names of a rule for calls are identifiers. -/
def checkCalls : List CallRule → Except ConfigError Unit
  | [] => .ok ()
  | rule :: rest =>
    match [rule.scope, rule.method, rule.target].find? (!Text.isName ·) with
    | some name => .error (.callName rule name)
    | none => checkCalls rest

/-- Refuses rules whose results could not be written down; the first fault found counts. -/
def check (r : Rules) : Except ConfigError Unit := do
  if !Text.isName r.typeName then throw (.typeName r.typeName)
  if r.moduleName.isEmpty then throw .emptyModule
  checkOperators [] r.operators
  checkCalls r.calls

end Rules

namespace Config

def standard : Config := ⟨.standard, .passthrough⟩

/-- A field that has to be there. -/
def required {α : Type} (f : Json → Option α) : Option Json → Option α
  | some j => f j
  | none => none

/-- A field with a default. -/
def optional {α : Type} (f : Json → Option α) (default : α) : Option Json → Option α
  | some j => f j
  | none => some default

def operatorRule? (j : Json) : Option OperatorRule := do
  let [operator, method] ← j.fields? ["operator", "method"] | none
  let operator ← required (fun j => j.choice?.bind ArithmeticOp.ofText?) operator
  let method ← required Json.text? method
  return ⟨operator, method⟩

def callRule? (j : Json) : Option CallRule := do
  let [scope, method, target] ← j.fields? ["namespace", "method", "target"] | none
  return ⟨← required Json.text? scope, ← required Json.text? method, ← required Json.text? target⟩

def rules? (j : Json) : Option Rules := do
  let [typeName, moduleName, operators, calls] ←
    j.fields? ["type_name", "module", "operators", "calls"] | none
  let typeName ← optional Json.text? Rules.standard.typeName typeName
  let moduleName ← optional Json.text? Rules.standard.moduleName moduleName
  let operators ← optional (Json.list? operatorRule?) Rules.standard.operators operators
  let calls ← optional (Json.list? callRule?) Rules.standard.calls calls
  return ⟨typeName, moduleName, operators, calls⟩

def policy? (j : Json) : Option Policy := do
  let name ← j.choice?
  [Policy.passthrough, .strict].find? (·.text == name)

/-- A configuration of the right shape, its names unchecked. -/
def ofJson? (j : Json) : Option Config := do
  let [rules, policy] ← j.fields? ["rules", "policy"] | none
  return ⟨← optional rules? .standard rules, ← optional policy? .passthrough policy⟩

/-- The configuration that a text describes, its names unchecked. -/
def read (text : String) : Except ConfigError Config :=
  match (Json.parse? text).bind ofJson? with
  | some config => .ok config
  | none => .error .malformed

/-- The configuration that a text describes. -/
def load (text : String) : Except ConfigError Config := do
  let config ← read text
  config.rules.check
  return config

end Config

end DecimalLift
