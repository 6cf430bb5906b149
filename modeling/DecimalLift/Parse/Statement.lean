import DecimalLift.Parse.Ascription
import DecimalLift.Parse.Expression
import DecimalLift.Token.Stream

/-!
# Statements and programs

* `Parse.statement` (`parse_statement`) — the statement at the front of the queue.
* `Parse.program` (`parse_program`) — statements up to the end of file.
* `Program.parse` (`parse_source`) — the tree of a source text, or why there is none.
-/

set_option autoImplicit false

namespace DecimalLift.Parse

/-- The string that names a module. -/
def moduleName (d : ImportDeclaration) : Parse ImportDeclaration := do
  match ← advance? with
  | some t =>
    match t.kind with
    | .string value quote raw =>
      return { d with moduleName := value, quote := quote, rawName := some raw }
    | _ => throw (.unexpectedToken .moduleName t)
  | none => failAtEnd .moduleName

/-- The names between the braces of an import, without the closing brace. -/
def specifiers : Nat → Parse (List ImportSpecifier)
  | 0 => outOfSteps
  | n + 1 => do
    if ← at? (.symbol .rightBrace) then return []
    else
      let imported ← expectIdentifier "import specifier"
      let bound ←
        if ← atWord? "as" then do
          let _ ← advance?
          expectIdentifier "import specifier"
        else pure imported
      if ← accept (.symbol .comma) then
        let rest ← specifiers n
        return ⟨imported, bound⟩ :: rest
      else return [⟨imported, bound⟩]

/-- What stands between `import` and `from` behind the default binding. -/
def importClause (d : ImportDeclaration) : Parse ImportDeclaration := do
  if ← accept (.symbol .star) then
    expectWord "as" "namespace import"
    let name ← expectIdentifier "namespace import"
    return { d with namespaceBinding := some name }
  else
    expect (.symbol .leftBrace) "import declaration"
    let named ← withSteps specifiers
    expect (.symbol .rightBrace) "import declaration"
    return { d with named := named }

/-- The bindings of an import, up to and including `from`. -/
def importBindings (d : ImportDeclaration) : Parse ImportDeclaration := do
  let d ← match ← peekKind? with
    | some (.identifier _) => do
      let name ← expectIdentifier "import declaration"
      let d := { d with defaultBinding := some name }
      if ← accept (.symbol .comma) then importClause d else pure d
    | _ => importClause d
  expectWord "from" "import declaration"
  return d

def importDeclaration : Parse ImportDeclaration := do
  expect (.keyword .importWord) "import declaration"
  let d : ImportDeclaration := ⟨none, none, [], "", .double, none⟩
  let d ← match ← peekKind? with
    | some (.string ..) => moduleName d
    | _ => do moduleName (← importBindings d)
  endStatement "import declaration"
  return d

/-- The variables of a declaration, between commas. -/
def declarators : Nat → Parse (List Declarator)
  | 0 => outOfSteps
  | n + 1 => do
    let start ← here
    let name ← expectIdentifier "variable declaration"
    let type ← ascription?
    let initial ← if ← accept (.symbol .equal) then pure (some (← expression)) else pure none
    let d : Declarator := ⟨← nodeFrom start, name, type, initial⟩
    if ← accept (.symbol .comma) then
      let rest ← declarators n
      return d :: rest
    else return [d]

/-- A word and the variables that it declares, without a semicolon. -/
def variableDeclaration : Parse (DeclarationWord × List Declarator) := do
  let word := match ← advanceKind? with
    | some (.keyword .letWord) => DeclarationWord.letWord
    | some (.keyword .constWord) => .constWord
    | _ => .varWord
  let ds ← withSteps declarators
  return (word, ds)

/-- The parameters of a function, without the closing parenthesis. -/
def parameters : Nat → Parse (List Parameter)
  | 0 => outOfSteps
  | n + 1 => do
    if ← at? (.symbol .rightParen) then return []
    else
      let name ← expectIdentifier "parameter list"
      let type ← ascription?
      if ← accept (.symbol .comma) then
        let rest ← parameters n
        return ⟨name, type⟩ :: rest
      else return [⟨name, type⟩]

/-- Whether a kind of token starts a variable declaration. -/
def startsVariable : Option TokenKind → Bool
  | some (.keyword .letWord) | some (.keyword .constWord) | some (.keyword .varWord) => true
  | _ => false

/-- The first part of the header of a `for` loop. -/
def forStart : Parse (Option Statement) := do
  if ← at? (.symbol .semicolon) then return none
  else
    let start ← here
    if startsVariable (← peekKind?) then
      let (word, ds) ← variableDeclaration
      return some (.variable (← nodeFrom start) word ds)
    else
      let e ← expression
      return some (.expression (← nodeFrom start) e)

/-- An expression, unless the symbol `close` comes first. -/
def expressionBefore (close : Symbol) : Parse (Option Expression) := do
  if ← at? (.symbol close) then return none else return some (← expression)

/-- Whether nothing is returned: a line break, or an end of the statement, comes first. -/
def returnsNothing : Option Token → Bool
  | none => true
  | some t =>
    t.afterBreak || t.kind = .symbol .semicolon || t.kind = .symbol .rightBrace
      || t.kind = .endOfFile

/-! Each form of statement, with the reader `inner` for a statement inside it, or the reader `block`
for the statements between its braces. -/

def importForm : Parse Statement := do
  let start ← here
  let d ← importDeclaration
  return .imports (← nodeFrom start) d

def exportForm (inner : Parse Statement) : Parse Statement := do
  let start ← here
  let _ ← advance?
  let exported ← inner
  if exported.isDeclaration then return .exports (← nodeFrom start) exported
  else throw (.notExportable exported.span.start)

def variableForm : Parse Statement := do
  let start ← here
  let (word, ds) ← variableDeclaration
  endStatement "variable declaration"
  return .variable (← nodeFrom start) word ds

def functionForm (block : Parse (List Statement)) : Parse Statement := do
  let start ← here
  expect (.keyword .functionWord) "function declaration"
  let name ← expectIdentifier "function declaration"
  expect (.symbol .leftParen) "parameter list"
  let ps ← withSteps parameters
  expect (.symbol .rightParen) "parameter list"
  let result ← ascription?
  let body ← block
  return .function (← nodeFrom start) name ps result body

def returnForm : Parse Statement := do
  let start ← here
  let _ ← advance?
  let value ← if returnsNothing (← peek?) then pure none else pure (some (← expression))
  endStatement "return statement"
  return .returns (← nodeFrom start) value

def branchForm (inner : Parse Statement) : Parse Statement := do
  let start ← here
  expect (.keyword .ifWord) "if statement"
  expect (.symbol .leftParen) "if statement"
  let condition ← expression
  expect (.symbol .rightParen) "if statement"
  let yes ← inner
  let no ← if ← accept (.keyword .elseWord) then pure (some (← inner)) else pure none
  return .branch (← nodeFrom start) condition yes no

def whileForm (inner : Parse Statement) : Parse Statement := do
  let start ← here
  let _ ← advance?
  expect (.symbol .leftParen) "while statement"
  let condition ← expression
  expect (.symbol .rightParen) "while statement"
  let body ← inner
  return .whileLoop (← nodeFrom start) condition body

def forForm (inner : Parse Statement) : Parse Statement := do
  let start ← here
  expect (.keyword .forWord) "for statement"
  expect (.symbol .leftParen) "for statement"
  let first ← forStart
  expect (.symbol .semicolon) "for statement"
  let condition ← expressionBefore .semicolon
  expect (.symbol .semicolon) "for statement"
  let update ← expressionBefore .rightParen
  expect (.symbol .rightParen) "for statement"
  let body ← inner
  return .forLoop (← nodeFrom start) first condition update body

def blockForm (block : Parse (List Statement)) : Parse Statement := do
  let start ← here
  let inner ← block
  return .block (← nodeFrom start) inner

def emptyForm : Parse Statement := do
  let start ← here
  let _ ← advance?
  return .empty (← nodeFrom start)

def expressionForm : Parse Statement := do
  let start ← here
  let e ← expression
  endStatement "expression statement"
  return .expression (← nodeFrom start) e

/-- The form of statement that starts with a kind of token. -/
def form (inner : Parse Statement) (block : Parse (List Statement)) :
    Option TokenKind → Parse Statement
  | some (.keyword .importWord) => importForm
  | some (.keyword .exportWord) => exportForm inner
  | some (.keyword .letWord) | some (.keyword .constWord) | some (.keyword .varWord) => variableForm
  | some (.keyword .functionWord) => functionForm block
  | some (.keyword .returnWord) => returnForm
  | some (.keyword .ifWord) => branchForm inner
  | some (.keyword .whileWord) => whileForm inner
  | some (.keyword .forWord) => forForm inner
  | some (.symbol .leftBrace) => blockForm block
  | some (.symbol .semicolon) => emptyForm
  | _ => expressionForm

mutual

def statementLevel : Nat → Parse Statement
  | 0 => outOfSteps
  | n + 1 => do form (statementLevel n) (blockLevel n) (← peekKind?)

/-- Statements between braces. -/
def blockLevel : Nat → Parse (List Statement)
  | 0 => outOfSteps
  | n + 1 => do
    expect (.symbol .leftBrace) "block"
    let inner ← blockBody n
    expect (.symbol .rightBrace) "block"
    return inner

/-- Statements up to a closing brace, which stays in the queue. -/
def blockBody : Nat → Parse (List Statement)
  | 0 => outOfSteps
  | n + 1 => do
    if ← at? (.symbol .rightBrace) then return []
    else if ← at? .endOfFile then throw (.unexpectedEnd .blockEnd (← here))
    else
      let first ← statementLevel n
      let rest ← blockBody n
      return first :: rest

end

/-- Statements up to the end of file, which stays in the queue. -/
def statements : Nat → Parse (List Statement)
  | 0 => outOfSteps
  | n + 1 => do
    if ← at? .endOfFile then return []
    else
      let first ← withSteps statementLevel
      let rest ← statements n
      return first :: rest

/-- The statement at the front of the queue. -/
def statement : Parse Statement := withSteps statementLevel

/-- All statements left, as the program of the queue's file. -/
def program : Parse Program := do
  let start ← here
  let inner ← withSteps statements
  let n ← nodeFrom start
  return ⟨n, (← get).file, inner, (← get).nextId⟩

/-- Runs a reader on a state, for its value alone. -/
def value {α : Type} (p : Parse α) (s : ParserState) : Except SourceError α :=
  match p s with
  | .ok a _ => .ok a
  | .error e _ => .error e.toSourceError

end DecimalLift.Parse

namespace DecimalLift

/-- The reader state for a source text, unless it does not split into tokens. -/
def ParserState.ofSource (source file : String) : Except SourceError ParserState :=
  match tokenize source file with
  | .ok tokens => .ok (.ofTokens tokens file)
  | .error e => .error e.toSourceError

/-- The tree of a source text. -/
def Program.parse (source file : String) : Except SourceError Program := do
  Parse.program.value (← ParserState.ofSource source file)

/-- The tree of the expression at the front of a text; what stands behind it is not looked at. -/
def Expression.parse (source file : String) : Except SourceError Expression := do
  Parse.expression.value (← ParserState.ofSource source file)

/-- The tree of the statement at the front of a text; what stands behind it is not looked at. -/
def Statement.parse (source file : String) : Except SourceError Statement := do
  Parse.statement.value (← ParserState.ofSource source file)

end DecimalLift
