import DecimalLift.Proofs.Parse.Statement
import DecimalLift.Proofs.RoundTrip.Declaration

/-!
# Statements and programs are read back

* `ReadsStatementBack` — a layout is read back as a statement, up to what the layout shows.
* `readsStatement_back` — every written statement is read back.
* `Program.exists_parse_render` — the text of a written program is read, and gives the program back.
-/

set_option autoImplicit false

namespace DecimalLift

open Piece (Settled Unbroken symbol keyword comma separated parenthesized parenthesizedIf)

/-! ## Marks of statements -/

/-- The layout starts with a token, so that a line break in front of it is one in front of that
token. -/
def Piece.Starts (ps : List Piece) : Prop := ∀ b, ∃ k ms, marks b ps = (k, b) :: ms

theorem Piece.Starts.append {ps : List Piece} (h : Starts ps) (qs : List Piece) :
    Starts (ps ++ qs) := by
  intro b
  obtain ⟨k, ms, hk⟩ := h b
  simp only [marks] at hk
  simp only [marks, List.flatMap_append, TokenKind.marks_append, hk, List.cons_append]
  exact ⟨k, _, rfl⟩

theorem Piece.starts_token {k : TokenKind} (h : k.trivia? = none) (ps : List Piece) :
    Starts (.token k :: ps) :=
  fun b => ⟨k, marks false ps, marks_token h b ps⟩

theorem Piece.Starts.parenthesizedIf {ps : List Piece} (h : Starts ps) (wrap : Bool) :
    Starts (parenthesizedIf wrap ps) := by
  cases wrap with
  | true => exact starts_token rfl _
  | false => exact h

/-- The layout of an expression starts with a token. -/
theorem starts_pieces : ∀ e : Expression, Piece.Starts e.pieces
  | .number .. | .boolean .. | .null .. | .identifier .. | .construct .. | .array .. => by
    rw [Expression.pieces]
    exact Piece.starts_token rfl _
  | .string .. => by
    rw [Expression.pieces]
    exact fun b => ⟨_, _, rfl⟩
  | .call _ e _ | .member _ e _ => by
    rw [Expression.pieces]
    exact ((starts_pieces e).parenthesizedIf _).append _
  | .binary _ _ e _ | .index _ e _ | .conditional _ e _ _ => by
    rw [Expression.pieces]
    simp only [List.append_assoc]
    exact ((starts_pieces e).parenthesizedIf _).append _
  | .unary _ op e => by
    rw [Expression.pieces]
    split
    · exact ((starts_pieces e).parenthesizedIf _).append _
    · exact Piece.starts_token (by cases op <;> rfl) _

namespace Statement

variable {o : LayoutOptions}

theorem marks_bodyLead (depth : Nat) (body : Statement) (b : Bool) (ps : List Piece) :
    ∃ b', Piece.marks b (bodyLead o depth body :: ps) = Piece.marks b' ps := by
  unfold bodyLead
  split
  · exact ⟨b, rfl⟩
  · exact ⟨true, Piece.marks_line b _ ps⟩

/-- A word, a header between parentheses and a body. -/
theorem marks_controlled {k : Keyword} {header ps : List Piece} (hheader : Unbroken header)
    (depth : Nat) (body : Statement) (b : Bool) :
    ∃ b', Piece.marks b ([keyword k, .space] ++ parenthesized header ++
        bodyLead o depth body :: ps) =
      (.keyword k, b) :: (.symbol .leftParen, false) ::
        (Piece.marks false header ++ (.symbol .rightParen, false) :: Piece.marks b' ps) := by
  obtain ⟨b', hlead⟩ := @marks_bodyLead o depth body false ps
  refine ⟨b', ?_⟩
  rw [List.append_assoc]
  show (_, b) :: Piece.marks false (parenthesized header ++ _) = _
  rw [Piece.marks_append_of_settled (settled_parenthesized header),
    Piece.marks_parenthesized hheader, hlead, List.cons_append, List.append_assoc]
  rfl

theorem marks_else (depth : Nat) (afterBlock : Bool) (no : Statement) :
    ∃ b b' depth', Piece.marks false (elsePieces o depth afterBlock (some no)) =
      (.keyword .elseWord, b) :: Piece.marks b' (no.pieces o depth') := by
  rw [elsePieces]
  have hlead : ∀ ps, ∃ b, Piece.marks false ((if afterBlock then .space else o.line depth) ::
      keyword .elseWord :: ps) = (.keyword .elseWord, b) :: Piece.marks false ps := by
    intro ps
    cases afterBlock with
    | true => exact ⟨false, rfl⟩
    | false => exact ⟨true, rfl⟩
  cases hno : no.isBranch with
  | true =>
    obtain ⟨b, hb⟩ := hlead (.space :: no.pieces o depth)
    exact ⟨b, false, depth, hb⟩
  | false =>
    obtain ⟨b, hb⟩ := hlead (bodyLead o depth no :: no.pieces o (bodyDepth depth no))
    obtain ⟨b', hb'⟩ := @marks_bodyLead o depth no false (no.pieces o (bodyDepth depth no))
    exact ⟨b, b', bodyDepth depth no, hb.trans (congrArg _ hb')⟩

theorem settled_lines (depth : Nat) : ∀ (s : Statement) (ss : List Statement),
    Settled (linesPieces o depth (s :: ss))
  | s, [] => by
    rw [linesPieces, linesPieces, List.append_nil]
    exact (settled_statement s depth).cons _
  | s, s' :: ss => by
    rw [linesPieces]
    exact (settled_lines depth s' ss).append_left _

theorem marks_block (depth : Nat) (ss : List Statement) (b : Bool) :
    ∃ b', Piece.marks b (blockPieces o depth ss) = (.symbol .leftBrace, b) ::
      (Piece.marks false (linesPieces o (depth + 1) ss) ++ [(.symbol .rightBrace, b')]) := by
  cases ss with
  | nil =>
    rw [blockPieces, linesPieces]
    exact ⟨false, rfl⟩
  | cons s ss =>
    refine ⟨true, ?_⟩
    rw [blockPieces]
    show (_, b) :: Piece.marks false (linesPieces o (depth + 1) (s :: ss) ++ _) = _
    rw [Piece.marks_append_of_settled (settled_lines (depth + 1) s ss)]
    rfl

/-- The head of a function, in front of its body. -/
theorem marks_function {ps : List Parameter} (hps : ∀ p ∈ ps, WrittenType p.ascription)
    {result : Option String} (hresult : WrittenType result) (name : String) (b : Bool)
    (body : List Piece) :
    Piece.marks b ([keyword .functionWord, .space, .name name]
        ++ parenthesized (separated (ps.map (Parameter.pieces o)))
        ++ o.ascriptionPieces result ++ [.space] ++ body) =
      (.keyword .functionWord, b) :: (.identifier name, false) :: (.symbol .leftParen, false) ::
        (Piece.marks false (separated (ps.map (Parameter.pieces o))) ++
          (.symbol .rightParen, false) ::
            (Piece.marks false (o.ascriptionPieces result) ++ Piece.marks false body)) := by
  have hparameters : Unbroken (separated (ps.map (Parameter.pieces o))) := by
    refine unbroken_items fun item hitem => ?_
    obtain ⟨p, hp, rfl⟩ := List.mem_map.1 hitem
    exact settled_ascribed (hps p hp) p.name
  have htype : Unbroken (o.ascriptionPieces result) := settled_ascribed hresult name false
  simp only [List.append_assoc]
  show (_, b) :: (_, false) :: Piece.marks false (parenthesized _ ++ _) = _
  rw [Piece.marks_append_of_settled (settled_parenthesized _),
    Piece.marks_parenthesized hparameters, Piece.marks_append_of_unbroken htype, List.cons_append,
    List.append_assoc]
  rfl

theorem unbroken_spacedPieces (e : Option Expression) : Unbroken (spacedPieces e) := by
  cases e with
  | none => rfl
  | some e => exact ((settled_pieces e).cons _).unbroken

theorem unbroken_startPieces {start : Option Statement} (h : AllOption Spelt start) :
    Unbroken (startPieces o start) := by
  unfold startPieces
  split
  · rename_i n word ds
    have hself : (Statement.variable n word ds).Spelt := All.self h
    exact (Parse.settled_variable hself.1.1 fun d hd => (hself.1.2 d hd).2).unbroken
  · exact (settled_pieces _).unbroken
  · rfl

end Statement

/-! ## Reading back -/

/-- A queue with given marks. -/
theorem exists_marks (ms : List Mark) : ∃ s : ParserState, s.marks = ms := by
  refine ⟨⟨ms.map fun m => ⟨m.1, .synthesized, m.2⟩, "", .start "", 0⟩, ?_⟩
  simp [ParserState.marks, Token.mark, Function.comp_def]

namespace Parse

/-- The layout is read back as the statement, up to what the layout shows. An `else` must not follow
a statement that would take it. -/
def ReadsStatementBack (o : LayoutOptions) (ps : List Piece) (st : Statement) : Prop :=
  ∀ ⦃s : ParserState⦄ ⦃b : Bool⦄ ⦃rest : List Mark⦄, s.marks = Piece.marks b ps ++ rest →
    (st.isOpen = true → NotAt (· == .keyword .elseWord) rest) →
    ∃ st' s', ReadsStatement s st' s' ∧ s'.marks = rest ∧ st'.relabel .erase = st.relabel o.shown

section

variable {o : LayoutOptions} {s : ParserState} {b : Bool} {rest : List Mark}

/-- No statement starts with `else`. -/
theorem ReadsStatement.notAt_else {s' : ParserState} {st : Statement} (h : ReadsStatement s st s') :
    NotAt (· == .keyword .elseWord) s.marks := by
  obtain ⟨k, hk, hstart⟩ := h.starts
  rw [notAt_marks, hk]
  rintro _ ⟨⟩
  refine beq_eq_false_iff_ne.2 ?_
  rintro rfl
  cases hstart

theorem readsExpression_back {e : Expression} (h : e.All Expression.Written) {y : Symbol}
    {ms : List Mark} (hy : y = .semicolon ∨ y = .rightParen)
    (hs : s.marks = Piece.marks b e.pieces ++ (.symbol y, false) :: ms) :
    ∃ e' s', Reads .assignment s e' s' ∧ s'.marks = (.symbol y, false) :: ms ∧
      e'.relabel .erase = e.relabel o.shown := by
  obtain ⟨e', s', hread, hs', hcopy⟩ := (readable h).whole hs
    (notAt_cons.2 (by rcases hy with rfl | rfl <;> rfl))
  exact ⟨e', s', hread, hs', hcopy.shown o⟩

/-- An expression of a header that may be left out. -/
theorem readsBefore_back {e : Option Expression} (h : ∀ e' ∈ e, e'.All Expression.Written)
    {y : Symbol} {ms : List Mark} (hy : y = .semicolon ∨ y = .rightParen)
    (hs : s.marks = Piece.marks false (Statement.spacedPieces e) ++ (.symbol y, false) :: ms) :
    ∃ e' s', ReadsBefore y s e' s' ∧ s'.marks = (.symbol y, false) :: ms ∧
      e'.map (Expression.relabel .erase) = e.map (Expression.relabel o.shown) := by
  cases e with
  | none => exact ⟨none, s, .none (ParserState.kind?_of_marks hs), hs, rfl⟩
  | some e =>
    obtain ⟨e', s', hread, hs', hshown⟩ := readsExpression_back (h e rfl) hy hs
    refine ⟨some e', s', .some ?_ hread, hs', congrArg some hshown⟩
    obtain ⟨k, hk, hstart⟩ := startsExpression_of_assignment hread
    rw [hk]
    rintro ⟨⟩
    rcases hy with rfl | rfl <;> cases hstart

theorem readsStart_back {start : Option Statement} (h : Statement.AllOption Statement.Written start)
    (hstart : ∀ first ∈ start, first.isStart = true) {ms : List Mark}
    (hs : s.marks = Piece.marks false (Statement.startPieces o start) ++
      (.symbol .semicolon, false) :: ms) :
    ∃ start' s', ReadsStart s start' s' ∧ s'.marks = (.symbol .semicolon, false) :: ms ∧
      Statement.relabelOption .erase start' = Statement.relabelOption o.shown start := by
  cases start with
  | none => exact ⟨none, s, .none (ParserState.kind?_of_marks hs), hs, rfl⟩
  | some first =>
    cases first with
    | «variable» n word ds =>
      have hself : (Statement.variable n word ds).Written := h
      obtain ⟨ds', s', hread, hs', hshown⟩ := readsVariable_back hself.1.1
        (fun d hd => (hself.1.2 d hd).2) (Statement.forall_initial_of_own hself.2) hs
      refine ⟨_, s'.grown, .declared hread, hs', ?_⟩
      simp only [Statement.relabelOption, Statement.relabel, hshown]
      rfl
    | expression n e =>
      have hself : (Statement.expression n e).Written := h
      obtain ⟨e', s', hread, hs', hshown⟩ :=
        readsExpression_back (hself.2 e List.mem_cons_self) (Or.inl rfl) hs
      refine ⟨_, s'.grown, .expression hread, hs', ?_⟩
      simp only [Statement.relabelOption, Statement.relabel, hshown]
      rfl
    | _ => cases hstart _ rfl

/-- The layout is read back as statements in front of a closing brace. -/
def ReadsBodyBack (o : LayoutOptions) (ps : List Piece) (ss : List Statement) : Prop :=
  ∀ ⦃s : ParserState⦄ ⦃b b' : Bool⦄ ⦃ms : List Mark⦄,
    s.marks = Piece.marks b ps ++ (.symbol .rightBrace, b') :: ms →
    ∃ ss' s', ReadsBody s ss' s' ∧ s'.marks = (.symbol .rightBrace, b') :: ms ∧
      Statement.relabelAll .erase ss' = Statement.relabelAll o.shown ss

theorem ReadsBodyBack.notAt_else {ps : List Piece} {ss : List Statement} (h : ReadsBodyBack o ps ss)
    (b' : Bool) (ms : List Mark) :
    NotAt (· == .keyword .elseWord) (Piece.marks false ps ++ (.symbol .rightBrace, b') :: ms) := by
  -- Some queue starts like this, and what is read from it tells its first token.
  obtain ⟨s, hs⟩ := exists_marks (Piece.marks false ps ++ (.symbol .rightBrace, b') :: ms)
  obtain ⟨ss', s', hread, -⟩ := h hs
  rw [← hs]
  cases hread with
  | close hbrace =>
    rw [notAt_marks, hbrace]
    rintro _ ⟨⟩
    rfl
  | more h => exact h.notAt_else

/-- What stands between braces is read back. -/
theorem readsBlock_back {depth : Nat} {ss : List Statement}
    (h : ReadsBodyBack o (Statement.linesPieces o (depth + 1) ss) ss)
    (hs : s.marks = Piece.marks b (Statement.blockPieces o depth ss) ++ rest) :
    ∃ s₁ ss' s₂ s', s.Takes (.symbol .leftBrace) s₁ ∧ ReadsBody s₁ ss' s₂ ∧
      s₂.Takes (.symbol .rightBrace) s' ∧ s'.marks = rest ∧
      Statement.relabelAll .erase ss' = Statement.relabelAll o.shown ss := by
  obtain ⟨b', hmarks⟩ := @Statement.marks_block o depth ss b
  rw [hmarks, List.cons_append, List.append_assoc] at hs
  obtain ⟨s₁, hopen, hs₁⟩ := takes_of_marks hs
  obtain ⟨ss', s₂, hbody, hs₂, hshown⟩ := h hs₁
  obtain ⟨s', hclose, hs'⟩ := takes_of_marks hs₂
  exact ⟨s₁, ss', s₂, s', hopen, hbody, hclose, hs', hshown⟩

/-- A word and a header with its parentheses, in front of a body. -/
theorem takes_header {k : Keyword} {header : List Piece} (hheader : Unbroken header) {depth : Nat}
    {body : Statement} {ps : List Piece}
    (hs : s.marks = Piece.marks b ([keyword k, .space] ++ parenthesized header ++
      Statement.bodyLead o depth body :: ps) ++ rest) :
    ∃ s₁ s₂ b', s.Takes (.keyword k) s₁ ∧ s₁.Takes (.symbol .leftParen) s₂ ∧
      s₂.marks = Piece.marks false header ++
        (.symbol .rightParen, false) :: (Piece.marks b' ps ++ rest) := by
  obtain ⟨b', hmarks⟩ := @Statement.marks_controlled o k header ps hheader depth body b
  rw [hmarks, List.cons_append, List.cons_append, List.append_assoc] at hs
  obtain ⟨s₁, hword, hs₁⟩ := takes_of_marks hs
  obtain ⟨s₂, hopen, hs₂⟩ := takes_of_marks hs₁
  exact ⟨s₁, s₂, b', hword, hopen, hs₂⟩

/-! ## One kind of statement after the other -/

theorem readsImports_back {n : Node} {d : ImportDeclaration} (h : d.Written) :
    ReadsStatementBack o d.pieces (.imports n d) := by
  intro s b rest hs _
  obtain ⟨s', hread, hs'⟩ := readsImport_back o h hs
  exact ⟨_, s'.grown, .imports hread, hs', rfl⟩

theorem readsDeclared_back {n : Node} {word : DeclarationWord} {ds : List Declarator}
    (h : (Statement.variable n word ds).Written) :
    ReadsStatementBack o (Statement.variablePieces o word ds ++ [symbol .semicolon])
      (.variable n word ds) := by
  intro s b rest hs _
  have htype := fun d hd => (h.1.2 d hd).2
  rw [Piece.marks_append_of_settled (settled_variable h.1.1 htype), List.append_assoc] at hs
  obtain ⟨ds', s₁, hread, hs₁, hshown⟩ :=
    readsVariable_back h.1.1 htype (Statement.forall_initial_of_own h.2) hs
  obtain ⟨s', hend, hs'⟩ := takes_of_marks hs₁
  refine ⟨_, s'.grown, .declared hread (.semicolon hend), hs', ?_⟩
  simp only [Statement.relabel, hshown]
  rfl

theorem readsFunction_back {n : Node} {name : String} {ps : List Parameter}
    {result : Option String} {depth : Nat} {body : List Statement}
    (h : (Statement.function n name ps result body).Shaped)
    (hbody : ReadsBodyBack o (Statement.linesPieces o (depth + 1) body) body) :
    ReadsStatementBack o (Statement.pieces o depth (.function n name ps result body))
      (.function n name ps result body) := by
  intro s b rest hs _
  rw [Statement.pieces, Statement.marks_function (fun p hp => (h.2.1 p hp).2) h.2.2] at hs
  simp only [List.cons_append, List.append_assoc] at hs
  obtain ⟨s₁, hfunction, hs₁⟩ := takes_of_marks hs
  obtain ⟨s₂, hname, hs₂⟩ := takes_of_marks hs₁
  obtain ⟨s₃, hopen, hs₃⟩ := takes_of_marks hs₂
  obtain ⟨s₄, hparameters, hs₄⟩ := readsParameters_back (fun p hp => (h.2.1 p hp).2) hs₃
  obtain ⟨s₅, hclose, hs₅⟩ := takes_of_marks hs₄
  have hbrace : NotAt TokenKind.extendsType (Piece.marks false
      (Statement.blockPieces o depth body) ++ rest) := by
    obtain ⟨b', hmarks⟩ := @Statement.marks_block o depth body false
    rw [hmarks]
    exact notAt_cons.2 rfl
  obtain ⟨s₆, hresult, hs₆⟩ := readsAscribed_back h.2.2 hs₅ hbrace
  obtain ⟨s₇, body', s₈, s', hopen', hbody', hclose', hs', hshown⟩ := readsBlock_back hbody hs₆
  refine ⟨_, s'.grown, .function hfunction hname hopen hparameters hclose hresult hopen' hbody'
    hclose', hs', ?_⟩
  simp only [Statement.relabel, hshown, List.map_map]
  rfl

theorem readsExports_back {n : Node} {ps : List Piece} {inner : Statement}
    (hinner : inner.isDeclaration = true) (h : ReadsStatementBack o ps inner) :
    ReadsStatementBack o ([keyword .exportWord, .space] ++ ps) (.exports n inner) := by
  intro s b rest hs _
  obtain ⟨s₁, hexport, hs₁⟩ := takes_of_marks hs
  have hopen : inner.isOpen = true → NotAt (· == .keyword .elseWord) rest := by
    intro hopen
    cases inner <;> first | cases hinner; done | cases hopen
  obtain ⟨inner', s', hread, hs', hshown⟩ := h hs₁ hopen
  refine ⟨_, s'.grown, .exports hexport hread ?_, hs', ?_⟩
  · rw [← Statement.isDeclaration_relabel .erase, hshown, Statement.isDeclaration_relabel]
    exact hinner
  · simp only [Statement.relabel, hshown]
    rfl

theorem readsExpressionStatement_back {n : Node} {e : Expression} (h : e.All Expression.Written) :
    ReadsStatementBack o (e.pieces ++ [symbol .semicolon]) (.expression n e) := by
  intro s b rest hs _
  rw [Piece.marks_append_of_settled (settled_pieces e), List.append_assoc] at hs
  obtain ⟨e', s₁, hread, hs₁, hshown⟩ := readsExpression_back h (Or.inl rfl) hs
  obtain ⟨s', hend, hs'⟩ := takes_of_marks hs₁
  refine ⟨_, s'.grown, .expression hread (.semicolon hend), hs', ?_⟩
  simp only [Statement.relabel, hshown]
  rfl

/-- A value that starts on the line of its `return` belongs to it. -/
theorem returnsNothing_eq_false {t : Token} (hbreak : t.afterBreak = false)
    (hstart : t.kind.startsExpression = true) : returnsNothing (some t) = false := by
  have hsemicolon : t.kind ≠ .symbol .semicolon := by
    intro h
    rw [h] at hstart
    cases hstart
  have hbrace : t.kind ≠ .symbol .rightBrace := by
    intro h
    rw [h] at hstart
    cases hstart
  have hend : t.kind ≠ .endOfFile := by
    intro h
    rw [h] at hstart
    cases hstart
  simp [returnsNothing, hbreak, hsemicolon, hbrace, hend]

theorem readsReturns_back {n : Node} {value : Option Expression}
    (h : ∀ e ∈ value, e.All Expression.Written) :
    ReadsStatementBack o
      (keyword .returnWord :: Statement.spacedPieces value ++ [symbol .semicolon])
      (.returns n value) := by
  intro s b rest hs _
  obtain ⟨s₁, hreturn, hs₁⟩ := takes_of_marks hs
  cases value with
  | none =>
    obtain ⟨s', hend, hs'⟩ := takes_of_marks hs₁
    refine ⟨_, s'.grown, .returns hreturn (.none ?_) (.semicolon hend), hs', rfl⟩
    obtain ⟨t, ts, ht, hk, -⟩ := hend
    rw [ht]
    simp [returnsNothing, hk]
  | some e =>
    have hmarks : s₁.marks = Piece.marks false (e.pieces ++ [symbol .semicolon]) ++ rest := hs₁
    rw [Piece.marks_append_of_settled (settled_pieces e), List.append_assoc] at hmarks
    obtain ⟨e', s₂, hread, hs₂, hshown⟩ := readsExpression_back (h e rfl) (Or.inl rfl) hmarks
    obtain ⟨s', hend, hs'⟩ := takes_of_marks hs₂
    refine ⟨_, s'.grown, .returns hreturn (.some ?_ hread) (.semicolon hend), hs', ?_⟩
    · obtain ⟨k, ms, hk⟩ := starts_pieces e false
      rw [hk, List.cons_append] at hmarks
      obtain ⟨t, ts, ht, -, hbreak, -⟩ := ParserState.exists_of_marks hmarks
      obtain ⟨k', hk', hstart⟩ := startsExpression_of_assignment hread
      rw [ParserState.kind?_of_tokens ht] at hk'
      cases hk'
      rw [ht]
      exact returnsNothing_eq_false hbreak hstart
    · simp only [Statement.relabel, Option.map_some, hshown]
      rfl

theorem readsBranch_back {n : Node} {condition : Expression} {yes : Statement} {depth : Nat}
    (hcondition : condition.All Expression.Written)
    (hyes : ReadsStatementBack o (yes.pieces o (Statement.bodyDepth depth yes)) yes) :
    ReadsStatementBack o (Statement.pieces o depth (.branch n condition yes none))
      (.branch n condition yes none) := by
  intro s b rest hs helse
  rw [Statement.pieces, Statement.elsePieces, List.append_nil] at hs
  obtain ⟨s₁, s₂, b', hif, hopen, hs₂⟩ := takes_header (settled_pieces condition).unbroken hs
  obtain ⟨condition', s₃, hread, hs₃, hshown⟩ := readsExpression_back hcondition (Or.inr rfl) hs₂
  obtain ⟨s₄, hclose, hs₄⟩ := takes_of_marks hs₃
  have hrest : NotAt (· == .keyword .elseWord) rest := helse rfl
  obtain ⟨yes', s', hyes', hs', hshown'⟩ := hyes hs₄ fun _ => hrest
  refine ⟨_, s'.grown, .branch hif hopen hread hclose hyes' ?_, hs', ?_⟩
  · exact kind?_ne_of_notAt (hs' ▸ hrest) (by decide)
  · simp only [Statement.relabel, Statement.relabelOption, hshown, hshown']
    rfl

theorem readsBranchElse_back {n : Node} {condition : Expression} {yes no : Statement} {depth : Nat}
    (hcondition : condition.All Expression.Written) (hclosed : yes.isOpen = false)
    (hyes : ReadsStatementBack o (yes.pieces o (Statement.bodyDepth depth yes)) yes)
    (hno : ∀ depth', ReadsStatementBack o (no.pieces o depth') no) :
    ReadsStatementBack o (Statement.pieces o depth (.branch n condition yes (some no)))
      (.branch n condition yes (some no)) := by
  intro s b rest hs helse
  obtain ⟨b₁, b₂, depth', hmarks⟩ := @Statement.marks_else o depth yes.isBlock no
  have hsettled : Settled ([keyword .ifWord, .space] ++ parenthesized condition.pieces ++
      Statement.bodyLead o depth yes :: yes.pieces o (Statement.bodyDepth depth yes)) :=
    ((Statement.settled_statement yes _).cons _).append_left _
  rw [Statement.pieces, Piece.marks_append_of_settled hsettled, hmarks, List.append_assoc] at hs
  obtain ⟨s₁, s₂, b', hif, hopen, hs₂⟩ := takes_header (settled_pieces condition).unbroken hs
  obtain ⟨condition', s₃, hread, hs₃, hshown⟩ := readsExpression_back hcondition (Or.inr rfl) hs₂
  obtain ⟨s₄, hclose, hs₄⟩ := takes_of_marks hs₃
  -- The first branch is closed, so the `else` is not its own.
  obtain ⟨yes', s₅, hyes', hs₅, hshown'⟩ := hyes hs₄ (by simp [hclosed])
  obtain ⟨s₆, helse', hs₆⟩ := takes_of_marks hs₅
  obtain ⟨no', s', hno', hs', hshown''⟩ := hno depth' hs₆ helse
  refine ⟨_, s'.grown, .branch_else hif hopen hread hclose hyes' helse' hno', hs', ?_⟩
  simp only [Statement.relabel, Statement.relabelOption, hshown, hshown', hshown'']
  rfl

theorem readsWhile_back {n : Node} {condition : Expression} {body : Statement} {depth : Nat}
    (hcondition : condition.All Expression.Written)
    (hbody : ReadsStatementBack o (body.pieces o (Statement.bodyDepth depth body)) body) :
    ReadsStatementBack o (Statement.pieces o depth (.whileLoop n condition body))
      (.whileLoop n condition body) := by
  intro s b rest hs helse
  rw [Statement.pieces] at hs
  obtain ⟨s₁, s₂, b', hwhile, hopen, hs₂⟩ := takes_header (settled_pieces condition).unbroken hs
  obtain ⟨condition', s₃, hread, hs₃, hshown⟩ := readsExpression_back hcondition (Or.inr rfl) hs₂
  obtain ⟨s₄, hclose, hs₄⟩ := takes_of_marks hs₃
  obtain ⟨body', s', hbody', hs', hshown'⟩ := hbody hs₄ helse
  refine ⟨_, s'.grown, .whileLoop hwhile hopen hread hclose hbody', hs', ?_⟩
  simp only [Statement.relabel, hshown, hshown']
  rfl

theorem readsFor_back {n : Node} {start : Option Statement} {condition update : Option Expression}
    {body : Statement} {depth : Nat} (h : (Statement.forLoop n start condition update body).Written)
    (hstart : Statement.AllOption Statement.Written start)
    (hbody : ReadsStatementBack o (body.pieces o (Statement.bodyDepth depth body)) body) :
    ReadsStatementBack o (Statement.pieces o depth (.forLoop n start condition update body))
      (.forLoop n start condition update body) := by
  intro s b rest hs helse
  have hfirst : Unbroken (Statement.startPieces o start) :=
    Statement.unbroken_startPieces (hstart.imp₂ (fun _ h _ => h.spelt) hstart)
  have hsecond : Unbroken (Statement.startPieces o start ++
      symbol .semicolon :: Statement.spacedPieces condition) :=
    hfirst.append (Statement.unbroken_spacedPieces condition)
  have hthird : Unbroken (symbol .semicolon :: Statement.spacedPieces update) :=
    Statement.unbroken_spacedPieces update
  rw [Statement.pieces] at hs
  obtain ⟨s₁, s₂, b', hfor, hopen, hs₂⟩ := takes_header (hsecond.append hthird) hs
  rw [Piece.marks_append_of_unbroken hsecond, Piece.marks_append_of_unbroken hfirst,
    List.append_assoc, List.append_assoc] at hs₂
  obtain ⟨start', s₃, hstart', hs₃, hshown⟩ := readsStart_back hstart h.1 hs₂
  obtain ⟨s₄, hsemicolon, hs₄⟩ := takes_of_marks hs₃
  obtain ⟨condition', s₅, hcondition, hs₅, hshown'⟩ := readsBefore_back (o := o)
    (fun e he => h.2 e (List.mem_append_left _ (Option.mem_toList.2 he))) (Or.inl rfl) hs₄
  obtain ⟨s₆, hsemicolon', hs₆⟩ := takes_of_marks hs₅
  obtain ⟨update', s₇, hupdate, hs₇, hshown''⟩ := readsBefore_back (o := o)
    (fun e he => h.2 e (List.mem_append_right _ (Option.mem_toList.2 he))) (Or.inr rfl) hs₆
  obtain ⟨s₈, hclose, hs₈⟩ := takes_of_marks hs₇
  obtain ⟨body', s', hbody', hs', hshown'''⟩ := hbody hs₈ helse
  refine ⟨_, s'.grown, .forLoop hfor hopen hstart' hsemicolon hcondition hsemicolon' hupdate hclose
    hbody', hs', ?_⟩
  simp only [Statement.relabel, hshown, hshown', hshown'', hshown''']
  rfl

theorem readsBlockStatement_back {n : Node} {ss : List Statement} {depth : Nat}
    (h : ReadsBodyBack o (Statement.linesPieces o (depth + 1) ss) ss) :
    ReadsStatementBack o (Statement.pieces o depth (.block n ss)) (.block n ss) := by
  intro s b rest hs _
  rw [Statement.pieces] at hs
  obtain ⟨s₁, ss', s₂, s', hopen, hbody, hclose, hs', hshown⟩ := readsBlock_back h hs
  refine ⟨_, s'.grown, .block hopen hbody hclose, hs', ?_⟩
  simp only [Statement.relabel, hshown]
  rfl

theorem readsEmpty_back {n : Node} : ReadsStatementBack o [symbol .semicolon] (.empty n) := by
  intro s b rest hs _
  obtain ⟨s', hend, hs'⟩ := takes_of_marks hs
  exact ⟨_, s'.grown, .empty hend, hs', rfl⟩

/-! ## All statements -/

theorem readsBody_nil : ReadsBodyBack o [] [] :=
  fun s _ _ _ hs => ⟨[], s, .close (ParserState.kind?_of_marks hs), hs, rfl⟩

/-- A statement on a line of its own, in front of more statements. -/
theorem ReadsStatementBack.cons {st : Statement} {ss : List Statement} {depth : Nat}
    (h : ReadsStatementBack o (st.pieces o depth) st)
    (hss : ReadsBodyBack o (Statement.linesPieces o depth ss) ss) :
    ReadsBodyBack o (Statement.linesPieces o depth (st :: ss)) (st :: ss) := by
  intro s b b' ms hs
  rw [Statement.linesPieces, List.cons_append] at hs
  unfold LayoutOptions.line at hs
  rw [Piece.marks_line, Piece.marks_append_of_settled (Statement.settled_statement st depth),
    List.append_assoc] at hs
  obtain ⟨st', s₁, hread, hs₁, hshown⟩ := h hs fun _ => hss.notAt_else b' ms
  obtain ⟨ss', s', hreads, hs', hshown'⟩ := hss hs₁
  refine ⟨st' :: ss', s', .more hread hreads, hs', ?_⟩
  simp only [Statement.relabelAll, hshown, hshown']

mutual

/-- **Every written statement is read back.** -/
theorem readsStatement_back : ∀ {st : Statement} (depth : Nat), st.All Statement.Written →
    ReadsStatementBack o (st.pieces o depth) st
  | .imports n d, depth, h => by
    rw [Statement.pieces]
    exact readsImports_back h.1
  | .variable n word ds, depth, h => by
    rw [Statement.pieces]
    exact readsDeclared_back h
  | .function .., depth, h => readsFunction_back h.1.1 (readsBody_back (depth + 1) h.2)
  | .exports .., depth, h => by
    rw [Statement.pieces]
    exact readsExports_back h.1.1 (readsStatement_back depth h.2)
  | .expression _ e, depth, h => by
    rw [Statement.pieces]
    exact readsExpressionStatement_back (h.2 e List.mem_cons_self)
  | .returns .., depth, h => by
    rw [Statement.pieces]
    exact readsReturns_back fun e he => h.2 e (Option.mem_toList.2 he)
  | .branch _ condition yes none, depth, h =>
    readsBranch_back (h.1.2 condition List.mem_cons_self) (readsStatement_back _ h.2.1)
  | .branch _ condition yes (some no), depth, h =>
    readsBranchElse_back (h.1.2 condition List.mem_cons_self) (h.1.1 rfl)
      (readsStatement_back _ h.2.1) fun depth' => readsStatement_back depth' h.2.2
  | .whileLoop _ condition body, depth, h =>
    readsWhile_back (h.1.2 condition List.mem_cons_self) (readsStatement_back _ h.2)
  | .forLoop _ start _ _ body, depth, h =>
    readsFor_back h.1 h.2.1 (readsStatement_back _ h.2.2)
  | .block .., depth, h => readsBlockStatement_back (readsBody_back (depth + 1) h.2)
  | .empty _, depth, _ => by
    rw [Statement.pieces]
    exact readsEmpty_back

theorem readsBody_back : ∀ {ss : List Statement} (depth : Nat),
    Statement.AllOf Statement.Written ss → ReadsBodyBack o (Statement.linesPieces o depth ss) ss
  | [], depth, _ => by
    rw [Statement.linesPieces]
    exact readsBody_nil
  | st :: ss, depth, h =>
    (readsStatement_back depth h.1).cons (readsBody_back depth h.2)

end

theorem ReadsFile.notAt_else {s' : ParserState} {ss : List Statement} (h : ReadsFile s ss s') :
    NotAt (· == .keyword .elseWord) s.marks := by
  cases h with
  | stop hend =>
    rw [notAt_marks]
    intro k hk
    obtain ⟨t, ht, rfl⟩ := Option.map_eq_some_iff.1 hk
    obtain ⟨ts, hts⟩ := List.head?_eq_some_iff.1 ht
    have hkind : t.kind = .endOfFile := by simpa [ParserState.isAt, hts] using hend
    rw [hkind]
    rfl
  | more h => exact h.notAt_else

/-- Statements up to the end of file. -/
theorem readsFile_back {b' : Bool} : ∀ {ss : List Statement} {s : ParserState} {b : Bool},
    Statement.AllOf Statement.Written ss →
    s.marks = Piece.marks b (ss.flatMap fun st => st.pieces o 0 ++ [.line 0]) ++
      [(.endOfFile, b')] →
    ∃ ss' s', ReadsFile s ss' s' ∧ Statement.relabelAll .erase ss' = Statement.relabelAll o.shown ss
  | [], s, b, _, hs => by
    obtain ⟨t, ts, ht, hk, -⟩ := ParserState.exists_of_marks hs
    refine ⟨[], s, .stop ?_, rfl⟩
    simp [ParserState.isAt, ht, hk]
  | st :: ss, s, b, h, hs => by
    rw [List.flatMap_cons, List.append_assoc, Piece.marks_append_of_settled
      (Statement.settled_statement st 0), List.append_assoc] at hs
    have hnext : NotAt (· == .keyword .elseWord) (Piece.marks true
        (ss.flatMap fun st => st.pieces o 0 ++ [.line 0]) ++ [(.endOfFile, b')]) := by
      obtain ⟨s₀, hs₀⟩ := exists_marks (Piece.marks true
        (ss.flatMap fun st => st.pieces o 0 ++ [.line 0]) ++ [(.endOfFile, b')])
      obtain ⟨ss', s', hread, -⟩ := readsFile_back h.2 hs₀
      rw [← hs₀]
      exact hread.notAt_else
    obtain ⟨st', s₁, hread, hs₁, hshown⟩ := readsStatement_back 0 h.1 hs fun _ => hnext
    obtain ⟨ss', s', hreads, hshown'⟩ := readsFile_back h.2 hs₁
    refine ⟨st' :: ss', s', .more hread hreads, ?_⟩
    simp only [Statement.relabelAll, hshown, hshown']

end

end Parse

/-- **The text of a written program is read**, and the statements are those of the program up to
what the layout shows. -/
theorem Program.exists_parse_render {p : Program}
    (h : Statement.AllOf Statement.Written p.statements) (o : LayoutOptions) (file : String) :
    ∃ q, Program.parse (p.render o) file = .ok q ∧ q.file = file ∧
      Statement.relabelAll .erase q.statements = Statement.relabelAll o.shown p.statements := by
  have hspelt := h.mono fun _ => Statement.Written.spelt
  obtain ⟨ts, b, hts, hmarks⟩ := Piece.exists_tokenize_render (Program.spaced (o := o) hspelt) file
  obtain ⟨ss, s', hread, hshown⟩ := Parse.readsFile_back h hmarks
  exact ⟨_, Program.parse_eq_ok.2 ⟨ts, ss, s', hts, hread, rfl⟩, rfl, hshown⟩

end DecimalLift
