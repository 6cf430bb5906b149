import DecimalLift.Rules
import DecimalLift.Tree

/-!
# Lifting arithmetic to a decimal type

An operand can be lifted if it is a number, a call, or arithmetic on operands that can be lifted.
Arithmetic becomes a method call on a new decimal, a call that the rules name becomes a call of the
decimal type, and numbers and other calls stay what they are.

* `Shape` (`NodeShape`) — what the rules see of an expression.
* `Lifted` — whether an expression stays or is replaced.
* `Build` (`NodeBuilder`, `NodeIdGenerator`) — building nodes with ids from a counter, which is a
  word of 32 bits; a failure keeps the ids that were used.
* `Expression.lift` (`ensure_fixed_point`) — the lifted form of an operand, or why there is none.
* `Expression.liftBinary` (`rewrite_binary_expression`), `Expression.liftCall`
  (`rewrite_call_expression`) — the same for one arithmetic node or call, where an expression that
  the rules do not name stays.
-/

set_option autoImplicit false

namespace DecimalLift

/-- What the rules see of an expression. -/
inductive Shape where
  | literal (raw : String)
  | binary (op : BinaryOp) (left right : Expression)
  /-- A call, with scope and method if the callee is `scope.method`. -/
  | call (target : Option (String × String)) (arguments : List Expression)
  | other (kind : String)

namespace Expression

/-- Scope and method of a callee `scope.method`. -/
def scopedMethod? : Expression → Option (String × String)
  | .member _ object property => object.name?.map fun scope => (scope, property)
  | _ => none

def shape : Expression → Shape
  | .number _ raw => .literal raw
  | .binary _ op left right => .binary op left right
  | .call _ callee arguments => .call callee.scopedMethod? arguments
  | e => .other e.kindName

end Expression

/-- An operand of a kind that cannot be lifted, and where it starts. -/
structure Unsupported where
  kind : String
  location : Location
  deriving DecidableEq, Repr

/-- What becomes of an expression. -/
inductive Lifted where
  | kept
  | replaced (e : Expression)

/-- The expression that stands there afterwards. -/
def Lifted.result (e : Expression) : Lifted → Expression
  | .kept => e
  | .replaced e' => e'

/-- Building with the ids of a counter, one after the other. The state is the next id. -/
abbrev Build := EStateM Unsupported UInt32

namespace Build

def node (span : Span) : Build Node := fun next => .ok ⟨next, span⟩ (next + 1)

/-- `new typeName(left).method(right)`, all of it with the span of what it replaces. -/
def methodCall (typeName method : String) (span : Span) (left right : Expression) :
    Build Expression := do
  let name := Expression.identifier (← node span) typeName
  let receiver := Expression.construct (← node span) name [left]
  let callee := Expression.member (← node span) receiver method
  return .call (← node span) callee [right]

/-- `typeName.method(arguments)`, its callee with the span of what it replaces. -/
def staticCall (typeName method : String) (span : Span) (arguments : List Expression) :
    Build Expression := do
  let name := Expression.identifier (← node span) typeName
  let callee := Expression.member (← node span) name method
  return .call (← node span) callee arguments

end Build

namespace Expression

/-- A call that the rules name becomes a call of the decimal type with the same arguments. -/
def liftCall (rules : Rules) : Expression → Build Lifted
  | .call n callee arguments =>
    match callee.scopedMethod?.bind fun (scope, method) => rules.target? scope method with
    | some target => .replaced <$> Build.staticCall rules.typeName target n.span arguments
    | none => return .kept
  | _ => return .kept

/-- The lifted form of an operand. -/
def lift (rules : Rules) : Expression → Build Lifted
  | .number .. => return .kept
  | .binary n op left right =>
    match rules.method? op with
    | some method => do
      let l ← lift rules left
      let r ← lift rules right
      .replaced <$> Build.methodCall rules.typeName method n.span (l.result left) (r.result right)
    | none => throw ⟨(Expression.binary n op left right).kindName, n.span.start⟩
  | .call n callee arguments => liftCall rules (.call n callee arguments)
  | e => throw ⟨e.kindName, e.span.start⟩

/-- Arithmetic that the rules name, lifted with its operands. -/
def liftBinary (rules : Rules) : Expression → Build Lifted
  | .binary n op left right =>
    if (rules.method? op).isSome then lift rules (.binary n op left right) else return .kept
  | _ => return .kept

/-- Arithmetic or a call that the rules name, lifted; any other expression stays. -/
def liftNode (rules : Rules) (e : Expression) : Build Lifted :=
  match e with
  | .binary .. => liftBinary rules e
  | .call .. => liftCall rules e
  | _ => return .kept

end Expression

end DecimalLift
