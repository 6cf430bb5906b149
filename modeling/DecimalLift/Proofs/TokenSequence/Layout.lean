import DecimalLift.Proofs.Layout.Ascription

/-!
# Tokens without layout

A text can be laid out and grouped in many ways and still say the same. What is common to them is
the sequence of its tokens without line ends, comments, parentheses, braces, semicolons and commas,
with a token `>>` taken as two closing angles.

* `TokenKind.core`, `TokenKind.coreOf` — what is left of one token and of several.
* `Piece.core` — what is left of a layout; parentheses and separators add nothing to it
  (`core_parenthesizedIf`, `core_separated`).
* `Expression.core` — what is left of the layout of an expression, form by form.
* `TypePieces.core_render` — the text of an ascription has what its layout has: how closing angles
  are joined makes no difference.
-/

set_option autoImplicit false

namespace DecimalLift

open Piece (symbol keyword comma separated parenthesized parenthesizedIf)

namespace TokenKind

/-- What is left of a token when layout and grouping are put aside. -/
def core : TokenKind → List TokenKind
  | .newline | .lineComment _ | .blockComment _ => []
  | .symbol .leftParen | .symbol .rightParen | .symbol .leftBrace | .symbol .rightBrace
  | .symbol .semicolon | .symbol .comma => []
  | .symbol .rightShift => [.symbol .greater, .symbol .greater]
  | k => [k]

def coreOf (ks : List TokenKind) : List TokenKind := ks.flatMap core

@[simp] theorem coreOf_nil : coreOf [] = [] := rfl

@[simp] theorem coreOf_cons (k : TokenKind) (ks : List TokenKind) :
    coreOf (k :: ks) = k.core ++ coreOf ks :=
  List.flatMap_cons

@[simp] theorem coreOf_append (ks ls : List TokenKind) :
    coreOf (ks ++ ls) = coreOf ks ++ coreOf ls :=
  List.flatMap_append

@[simp] theorem core_identifier (name : String) : (identifier name).core = [.identifier name] := rfl

@[simp] theorem core_keyword (w : Keyword) : (TokenKind.keyword w).core = [.keyword w] := rfl

/-- Line ends and comments leave nothing. -/
theorem core_of_trivia {k : TokenKind} {breaks : Bool} (h : k.trivia? = some breaks) :
    k.core = [] := by
  cases k with
  | newline | lineComment | blockComment => rfl
  | _ => cases h

theorem coreOf_filter_trivia (ks : List TokenKind) :
    coreOf (ks.filter (·.trivia?.isNone)) = coreOf ks := by
  induction ks with
  | nil => rfl
  | cons k ks ih =>
    rw [List.filter_cons, coreOf_cons]
    cases htrivia : k.trivia? with
    | some breaks => simp [core_of_trivia htrivia, ih]
    | none => simp [ih]

/-- Only the end of file leaves the end of file. -/
theorem endOfFile_mem_coreOf {ks : List TokenKind} (h : .endOfFile ∈ coreOf ks) :
    .endOfFile ∈ ks := by
  obtain ⟨k, hk, hmem⟩ := List.mem_flatMap.1 h
  have heq : k = .endOfFile := by
    cases k with
    | endOfFile => rfl
    | symbol y => cases y <;> simp [core] at hmem
    | _ => simp [core] at hmem
  exact heq ▸ hk

end TokenKind

open TokenKind (coreOf)

/-! ## Layouts -/

namespace Piece

/-- What is left of the tokens of a layout. -/
def core (ps : List Piece) : List TokenKind := coreOf (ps.flatMap kinds)

@[simp] theorem core_nil : core [] = [] := rfl

@[simp] theorem core_append (ps qs : List Piece) : core (ps ++ qs) = core ps ++ core qs := by
  simp only [core, List.flatMap_append, TokenKind.coreOf_append]

@[simp] theorem core_token (k : TokenKind) (ps : List Piece) :
    core (.token k :: ps) = k.core ++ core ps := rfl

@[simp] theorem core_space (ps : List Piece) : core (.space :: ps) = core ps := rfl

@[simp] theorem core_line (blanks : Nat) (ps : List Piece) : core (.line blanks :: ps) = core ps :=
  rfl

@[simp] theorem core_symbol (y : Symbol) (ps : List Piece) :
    core (symbol y :: ps) = (TokenKind.symbol y).core ++ core ps := rfl

@[simp] theorem core_keyword (w : Keyword) (ps : List Piece) :
    core (keyword w :: ps) = .keyword w :: core ps := rfl

@[simp] theorem core_name (name : String) (ps : List Piece) :
    core (.name name :: ps) = .identifier name :: core ps := rfl

@[simp] theorem core_ascription (text : String) (ps : List Piece) :
    core (.ascription text :: ps) = coreOf (ascriptionKinds text) ++ core ps := by
  simp only [core, List.flatMap_cons, kinds, TokenKind.coreOf_append]

/-- Parentheses leave nothing. -/
@[simp] theorem core_parenthesized (ps : List Piece) : core (parenthesized ps) = core ps := by
  simp [parenthesized, TokenKind.core]

@[simp] theorem core_parenthesizedIf (wrap : Bool) (ps : List Piece) :
    core (parenthesizedIf wrap ps) = core ps := by
  cases wrap with
  | true => exact core_parenthesized ps
  | false => rfl

/-- Commas leave nothing. -/
@[simp] theorem core_separated (items : List (List Piece)) :
    core (separated items) = items.flatMap core := by
  fun_induction separated items with
  | case1 => rfl
  | case2 item => simp
  | case3 item rest _ ih => simp [comma, TokenKind.core, ih]

/-- Closing angles leave the same, joined or not. -/
theorem core_joinAngles (ps : List Piece) : core (joinAngles ps) = core ps := by
  fun_induction joinAngles ps with
  | case1 => rfl
  | case2 => rfl
  | case3 p q ps h ih =>
    obtain ⟨rfl, rfl⟩ := h
    rw [core_symbol, ih]
    rfl
  | case4 p q ps h ih =>
    rw [← List.singleton_append, core_append, ih, ← core_append, List.singleton_append]

end Piece

/-- The text of an ascription leaves what its layout leaves. -/
theorem TypePieces.core_render {level : TypeLevel} {ps : List Piece} (h : TypePieces level ps) :
    coreOf (ascriptionKinds (Piece.render ps)) = Piece.core ps := by
  rw [ascriptionKinds_render h]
  exact Piece.core_joinAngles ps

/-! ## Expressions -/

namespace Expression

/-- What is left of the layout of an expression. -/
def core (e : Expression) : List TokenKind := Piece.core e.pieces

theorem core_listPieces (es : List Expression) :
    (listPieces es).flatMap Piece.core = es.flatMap core := by
  induction es with
  | nil => rfl
  | cons e es ih =>
    rw [listPieces, List.flatMap_cons, List.flatMap_cons, ih, Piece.core_parenthesizedIf]
    rfl

variable (n : Node)

theorem core_binary (op : BinaryOp) (left right : Expression) :
    (binary n op left right).core =
      left.core ++ (TokenKind.symbol op.symbol).core ++ right.core := by
  simp [core, pieces]

/-- An operator is left on the side of its operand where it stands. -/
theorem core_trailing {op : UnaryOp} (hop : op.isTrailing = true) (operand : Expression) :
    (unary n op operand).core = operand.core ++ op.token.core := by
  simp [core, pieces, hop]

theorem core_leading {op : UnaryOp} (hop : op.isTrailing = false) (operand : Expression) :
    (unary n op operand).core = op.token.core ++ operand.core := by
  simp only [core, pieces, hop]
  cases needsSpace op operand <;> simp

theorem core_call (callee : Expression) (arguments : List Expression) :
    (call n callee arguments).core = callee.core ++ arguments.flatMap core := by
  simp [core, pieces, ← core_listPieces]

theorem core_construct (callee : Expression) (arguments : List Expression) :
    (construct n callee arguments).core =
      .keyword .newWord :: callee.core ++ arguments.flatMap core := by
  simp [core, pieces, ← core_listPieces]

theorem core_member (object : Expression) (property : String) :
    (member n object property).core = object.core ++ [.symbol .dot, .identifier property] := by
  simp [core, pieces, TokenKind.core]

theorem core_index (object position : Expression) :
    (index n object position).core =
      object.core ++ .symbol .leftBracket :: position.core ++ [.symbol .rightBracket] := by
  simp [core, pieces, TokenKind.core]

theorem core_conditional (condition yes no : Expression) :
    (conditional n condition yes no).core =
      condition.core ++ .symbol .question :: yes.core ++ .symbol .colon :: no.core := by
  simp [core, pieces, TokenKind.core]

theorem core_array (elements : List Expression) :
    (array n elements).core =
      .symbol .leftBracket :: elements.flatMap core ++ [.symbol .rightBracket] := by
  simp [core, pieces, TokenKind.core, ← core_listPieces]

end Expression

end DecimalLift
