import DecimalLift.Parse.Statement
import DecimalLift.Proofs.Token.Lexeme
import DecimalLift.Tree.Layout

/-!
# From pieces to a queue of tokens

The pieces of a layout become text, the text is split into tokens, and a reader meets those that are
not line ends. This file follows the pieces all the way.

* `Piece.Spaced` — no token of a layout runs into what stands behind it.
* `lexes_of_spaced` — a spaced layout is split into the tokens it was made of.
* `Mark` — what a reader sees of a token: its kind, and whether a line break stands before it.
* `Piece.marks` — the marks of a layout; `marks_append` and the equations for each kind of piece.
* `exists_tokenize_kinds`, `exists_tokenize_render` — the text of a spaced layout has its tokens, and
  the queue for it has its marks.
-/

set_option autoImplicit false

namespace DecimalLift

/-! ## Tokens of a text -/

/-- The kinds of the tokens of an ascription, read on its own. -/
def ascriptionKinds (text : String) : List TokenKind :=
  match tokenize text "" with
  | .ok ts => (ts.map (·.kind)).dropLast
  | .error _ => []

namespace Piece

def kinds : Piece → List TokenKind
  | .token kind => [kind]
  | .space => []
  | .line _ => [.newline]
  | .ascription text => ascriptionKinds text

/-- A piece keeps its tokens in front of the text `rest`. -/
def Stands : Piece → List Char → Prop
  | .token kind, rest => kind.Spelt ∧ Stops kind.runsInto rest
  | .ascription text, rest =>
    ∀ ks, Lexes rest ks → Lexes (text.toList ++ rest) (ascriptionKinds text ++ ks)
  | .space, _ | .line _, _ => True

/-- Every piece keeps its tokens in front of those behind it and the text `tail`. -/
def Spaced : List Piece → List Char → Prop
  | [], _ => True
  | p :: ps, tail => p.Stands (ps.flatMap chars ++ tail) ∧ Spaced ps tail

theorem spaced_append {ps qs : List Piece} {tail : List Char} :
    Spaced (ps ++ qs) tail ↔ Spaced ps (qs.flatMap chars ++ tail) ∧ Spaced qs tail := by
  induction ps with
  | nil => simp [Spaced]
  | cons p ps ih => simp [Spaced, ih, List.flatMap_append, and_assoc]

theorem lexes_blanks {cs : List Char} {ks : List TokenKind} (h : Lexes cs ks) :
    ∀ n, Lexes (List.replicate n ' ' ++ cs) ks
  | 0 => h
  | n + 1 => lexes_gap (by decide) (lexes_blanks h n)

/-- The tokens of one piece. -/
theorem lexes_of_stands {p : Piece} {rest : List Char} {ks : List TokenKind} (hp : p.Stands rest)
    (h : Lexes rest ks) : Lexes (p.chars ++ rest) (p.kinds ++ ks) := by
  cases p with
  | token kind => exact lexes_token hp.1 hp.2 h
  | space => exact lexes_gap (by decide) h
  | line blanks => exact lexes_newline (lexes_blanks h blanks)
  | ascription text => exact hp ks h

/-- **A spaced layout has the tokens it was made of.** -/
theorem lexes_of_spaced {ps : List Piece} {tail : List Char} {ks : List TokenKind}
    (hps : Spaced ps tail) (h : Lexes tail ks) :
    Lexes (ps.flatMap chars ++ tail) (ps.flatMap kinds ++ ks) := by
  induction ps with
  | nil => exact h
  | cons p ps ih =>
    rw [List.flatMap_cons, List.flatMap_cons, List.append_assoc, List.append_assoc]
    exact lexes_of_stands hps.1 (ih hps.2)

end Piece

/-! ## Marks -/

/-- What a reader sees of a token: its kind, and whether a line break stands before it. -/
abbrev Mark := TokenKind × Bool

def Token.mark (t : Token) : Mark := (t.kind, t.afterBreak)

/-- The marks of the tokens left. -/
def ParserState.marks (s : ParserState) : List Mark := s.tokens.map Token.mark

namespace TokenKind

/-- The marks of tokens without line ends and comments; `broken` says whether a line break came
before. -/
def marks (broken : Bool) : List TokenKind → List Mark
  | [] => []
  | k :: ks =>
    match k.trivia? with
    | some breaks => marks (broken || breaks) ks
    | none => (k, broken) :: marks false ks

/-- Whether a line break stands between the last of the tokens and what follows. -/
def breakAfter (broken : Bool) : List TokenKind → Bool
  | [] => broken
  | k :: ks =>
    match k.trivia? with
    | some breaks => breakAfter (broken || breaks) ks
    | none => breakAfter false ks

theorem marks_append (ks ls : List TokenKind) (broken : Bool) :
    marks broken (ks ++ ls) = marks broken ks ++ marks (breakAfter broken ks) ls := by
  induction ks generalizing broken with
  | nil => rfl
  | cons k ks ih =>
    simp only [List.cons_append, marks, breakAfter]
    split
    · exact ih _
    · rw [ih, List.cons_append]

theorem breakAfter_append (ks ls : List TokenKind) (broken : Bool) :
    breakAfter broken (ks ++ ls) = breakAfter (breakAfter broken ks) ls := by
  induction ks generalizing broken with
  | nil => rfl
  | cons k ks ih =>
    simp only [List.cons_append, breakAfter]
    split <;> exact ih _

end TokenKind

/-- The queue has the marks of the tokens it was made from. -/
theorem map_mark_significant (ts : List Token) (broken : Bool) :
    (significant broken ts).map Token.mark = TokenKind.marks broken (ts.map (·.kind)) := by
  induction ts generalizing broken with
  | nil => rfl
  | cons t ts ih =>
    simp only [significant, List.map_cons, TokenKind.marks]
    cases t.kind.trivia? with
    | some breaks => exact ih _
    | none =>
      simp only
      rw [List.map_cons, ih]
      rfl

namespace Piece

/-- The marks of a layout. -/
def marks (broken : Bool) (ps : List Piece) : List Mark := TokenKind.marks broken (ps.flatMap kinds)

/-- The layout ends with a token, so that no line break of its own stands behind it. -/
def Settled (ps : List Piece) : Prop :=
  ∀ broken, TokenKind.breakAfter broken (ps.flatMap kinds) = false

@[simp] theorem marks_nil (broken : Bool) : marks broken [] = [] := rfl

@[simp] theorem marks_space (broken : Bool) (ps : List Piece) :
    marks broken (.space :: ps) = marks broken ps := rfl

@[simp] theorem marks_line (broken : Bool) (blanks : Nat) (ps : List Piece) :
    marks broken (.line blanks :: ps) = marks true ps := by
  cases broken <;> rfl

theorem marks_token {kind : TokenKind} (h : kind.trivia? = none) (broken : Bool) (ps : List Piece) :
    marks broken (.token kind :: ps) = (kind, broken) :: marks false ps := by
  simp only [marks, List.flatMap_cons, kinds, List.singleton_append, TokenKind.marks, h]

@[simp] theorem marks_symbol (s : Symbol) (broken : Bool) (ps : List Piece) :
    marks broken (symbol s :: ps) = (.symbol s, broken) :: marks false ps := rfl

@[simp] theorem marks_keyword (k : Keyword) (broken : Bool) (ps : List Piece) :
    marks broken (keyword k :: ps) = (.keyword k, broken) :: marks false ps := rfl

@[simp] theorem marks_name (name : String) (broken : Bool) (ps : List Piece) :
    marks broken (.name name :: ps) = (.identifier name, broken) :: marks false ps := rfl

theorem marks_append_of_settled {ps : List Piece} (h : Settled ps) (qs : List Piece)
    (broken : Bool) : marks broken (ps ++ qs) = marks broken ps ++ marks false qs := by
  simp only [marks, List.flatMap_append, TokenKind.marks_append, h broken]

/-- No line break of its own stands behind the layout, if none stands before it. -/
def Unbroken (ps : List Piece) : Prop := TokenKind.breakAfter false (ps.flatMap kinds) = false

theorem Settled.unbroken {ps : List Piece} (h : Settled ps) : Unbroken ps := h false

theorem marks_append_of_unbroken {ps : List Piece} (h : Unbroken ps) (qs : List Piece) :
    marks false (ps ++ qs) = marks false ps ++ marks false qs := by
  have h' : TokenKind.breakAfter false (ps.flatMap kinds) = false := h
  simp only [marks, List.flatMap_append, TokenKind.marks_append, h']

theorem Unbroken.append {ps qs : List Piece} (h : Unbroken ps) (hqs : Unbroken qs) :
    Unbroken (ps ++ qs) := by
  have h' : TokenKind.breakAfter false (ps.flatMap kinds) = false := h
  unfold Unbroken
  rw [List.flatMap_append, TokenKind.breakAfter_append, h']
  exact hqs

theorem marks_parenthesized {ps : List Piece} (h : Unbroken ps) (broken : Bool) :
    marks broken (parenthesized ps) =
      (.symbol .leftParen, broken) :: (marks false ps ++ [(.symbol .rightParen, false)]) := by
  unfold parenthesized
  rw [List.cons_append, marks_symbol, marks_append_of_unbroken h, marks_symbol, marks_nil]

theorem Settled.append_left {qs : List Piece} (h : Settled qs) (ps : List Piece) :
    Settled (ps ++ qs) := by
  intro broken
  rw [List.flatMap_append, TokenKind.breakAfter_append]
  exact h _

theorem Settled.cons {qs : List Piece} (h : Settled qs) (p : Piece) : Settled (p :: qs) :=
  h.append_left [p]

theorem settled_token {kind : TokenKind} (h : kind.trivia? = none) : Settled [.token kind] := by
  intro broken
  simp only [List.flatMap_cons, List.flatMap_nil, kinds, List.append_nil, TokenKind.breakAfter, h]

theorem settled_symbol (s : Symbol) : Settled [symbol s] := settled_token rfl

theorem settled_name (name : String) : Settled [.name name] := settled_token rfl

/-- **The text of a spaced layout** is split into the tokens of its pieces and the end of file. -/
theorem exists_tokenize_kinds {ps : List Piece} (h : Spaced ps []) (file : String) :
    ∃ ts, tokenize (render ps) file = .ok ts ∧
      ts.map (·.kind) = ps.flatMap kinds ++ [.endOfFile] := by
  have hlex := lexes_of_spaced h lexes_nil
  rw [List.append_nil, ← String.toList_ofList (l := ps.flatMap chars)] at hlex
  exact tokenize_of_lexes hlex file

/-- **The queue for the text of a layout** has the marks of its pieces and the end of file. -/
theorem exists_tokenize_render {ps : List Piece} (h : Spaced ps []) (file : String) :
    ∃ ts broken, tokenize (render ps) file = .ok ts ∧
      (ParserState.ofTokens ts file).marks = marks false ps ++ [(.endOfFile, broken)] := by
  obtain ⟨ts, hts, hks⟩ := exists_tokenize_kinds h file
  refine ⟨ts, TokenKind.breakAfter false (ps.flatMap kinds), hts, ?_⟩
  show (significant false ts).map Token.mark = _
  rw [map_mark_significant, hks, TokenKind.marks_append]
  rfl

end Piece

end DecimalLift
