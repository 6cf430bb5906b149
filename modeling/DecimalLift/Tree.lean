import DecimalLift.Operator

/-!
# Trees

* `Node` — the identity (`NodeId`, a word of 32 bits) and the span that every part of a tree
  carries.
* `Expression`, `Statement`, `Program` — the trees themselves. Grouping is the shape of the tree:
  parentheses are not recorded.
* `Expression.kindName` (`kind_name`) — the name of a kind of expression in messages.
-/

set_option autoImplicit false

namespace DecimalLift

/-- The identity of a part of a tree, and where it was read. -/
structure Node where
  id : UInt32
  span : Span
  deriving DecidableEq, Repr

/-- The node of a part that was built by hand. -/
def Node.blank : Node := ⟨0, .synthesized⟩

inductive Expression where
  | number (node : Node) (raw : String)
  /-- A string with its spelling between the quotes, if it was read. -/
  | string (node : Node) (value : String) (quote : Quote) (raw : Option String)
  | boolean (node : Node) (value : Bool)
  | null (node : Node)
  | identifier (node : Node) (name : String)
  | binary (node : Node) (op : BinaryOp) (left right : Expression)
  | unary (node : Node) (op : UnaryOp) (operand : Expression)
  | call (node : Node) (callee : Expression) (arguments : List Expression)
  | construct (node : Node) (callee : Expression) (arguments : List Expression)
  /-- `object.property` -/
  | member (node : Node) (object : Expression) (property : String)
  /-- `object[position]` -/
  | index (node : Node) (object position : Expression)
  | conditional (node : Node) (condition yes no : Expression)
  | array (node : Node) (elements : List Expression)
  deriving Repr

namespace Expression

def node : Expression → Node
  | .number n _ | .string n _ _ _ | .boolean n _ | .null n | .identifier n _ | .binary n _ _ _
  | .unary n _ _ | .call n _ _ | .construct n _ _ | .member n _ _ | .index n _ _
  | .conditional n _ _ _ | .array n _ => n

def span (e : Expression) : Span := e.node.span

def kindName : Expression → String
  | .number .. => "NumericLiteral"
  | .string .. => "StringLiteral"
  | .boolean .. => "BooleanLiteral"
  | .null .. => "NullLiteral"
  | .identifier .. => "Identifier"
  | .binary .. => "BinaryExpression"
  | .unary _ op _ => if op.isTrailing then "PostfixUnaryExpression" else "PrefixUnaryExpression"
  | .call .. => "CallExpression"
  | .construct .. => "NewExpression"
  | .member .. => "PropertyAccessExpression"
  | .index .. => "ElementAccessExpression"
  | .conditional .. => "ConditionalExpression"
  | .array .. => "ArrayLiteralExpression"

/-- The name of an expression that is one identifier. -/
def name? : Expression → Option String
  | .identifier _ name => some name
  | _ => none

/-- How tightly an expression holds together as an operand. -/
def precedence : Expression → Nat
  | .binary _ op _ _ => op.precedence
  | .conditional .. => Precedence.conditional
  | .unary _ op _ => if op.isTrailing then Precedence.trailing else Precedence.unary
  | .call .. | .construct .. | .member .. | .index .. => Precedence.member
  | .number .. | .string .. | .boolean .. | .null .. | .identifier .. | .array .. =>
    Precedence.primary

/-- Whether a value can be assigned to the expression. -/
def isAssignable : Expression → Bool
  | .identifier .. | .member .. | .index .. => true
  | _ => false

end Expression

/-- A name taken from a module, and the name it gets here. -/
structure ImportSpecifier where
  imported : String
  bound : String
  deriving DecidableEq, Repr

structure ImportDeclaration where
  defaultBinding : Option String
  namespaceBinding : Option String
  named : List ImportSpecifier
  moduleName : String
  quote : Quote
  /-- The module's name as spelt, if the declaration was read. -/
  rawName : Option String
  deriving DecidableEq, Repr

namespace ImportDeclaration

/-- Every name that the declaration binds, in the order in which they are written. -/
def boundNames (d : ImportDeclaration) : List String :=
  d.defaultBinding.toList ++ d.namespaceBinding.toList ++ d.named.map (·.bound)

/-- An import without bindings is there for what its module does. -/
def isBare (d : ImportDeclaration) : Bool :=
  d.defaultBinding.isNone && d.namespaceBinding.isNone && d.named.isEmpty

end ImportDeclaration

inductive DeclarationWord where
  | letWord
  | constWord
  | varWord
  deriving DecidableEq, Repr

def DeclarationWord.keyword : DeclarationWord → Keyword
  | .letWord => .letWord
  | .constWord => .constWord
  | .varWord => .varWord

/-- One variable of a declaration. Annotations are kept as text. -/
structure Declarator where
  node : Node
  name : String
  ascription : Option String
  initial : Option Expression
  deriving Repr

structure Parameter where
  name : String
  ascription : Option String
  deriving DecidableEq, Repr

inductive Statement where
  | imports (node : Node) (declaration : ImportDeclaration)
  | variable (node : Node) (word : DeclarationWord) (declarators : List Declarator)
  | function (node : Node) (name : String) (parameters : List Parameter)
      (result : Option String) (body : List Statement)
  | exports (node : Node) (inner : Statement)
  | expression (node : Node) (value : Expression)
  | returns (node : Node) (value : Option Expression)
  | branch (node : Node) (condition : Expression) (yes : Statement) (no : Option Statement)
  | whileLoop (node : Node) (condition : Expression) (body : Statement)
  | forLoop (node : Node) (start : Option Statement) (condition update : Option Expression)
      (body : Statement)
  | block (node : Node) (statements : List Statement)
  | empty (node : Node)
  deriving Repr

namespace Statement

def node : Statement → Node
  | .imports n _ | .variable n _ _ | .function n _ _ _ _ | .exports n _ | .expression n _
  | .returns n _ | .branch n _ _ _ | .whileLoop n _ _ | .forLoop n _ _ _ _ | .block n _
  | .empty n => n

def span (s : Statement) : Span := s.node.span

/-- Whether a statement is a declaration that a module can export. -/
def isDeclaration : Statement → Bool
  | .variable .. | .function .. => true
  | _ => false

end Statement

/-- One source file. `nextId` is an id that no part of the tree has reached. -/
structure Program where
  node : Node
  file : String
  statements : List Statement
  nextId : UInt32
  deriving Repr

/-- The import declarations at the top level. -/
def Program.importDeclarations (p : Program) : List ImportDeclaration :=
  p.statements.filterMap fun
    | .imports _ d => some d
    | _ => none

end DecimalLift
