import DecimalLift.Proofs.RoundTrip.Seam
import DecimalLift.Proofs.TokenSequence.Source
import DecimalLift.Proofs.Transform.Idempotent

/-!
# Which layouts are normal forms

The layout of a program that was read is a normal form if its text is read again and the second
program has the same text. That is so exactly for the programs without an operator behind another
one of its kind: such a pair is laid out without the parentheses that it was read with, and every
reading of the text ends in front of its second operator.

* `StatementEnds`, `BodyEnds` — a reading of the layout of a statement, or of the body of a block,
  ends right behind it, and there is one only without such a pair.
* `statementEnds` — readings of every statement end like this.
* `Program.trailsOnce_of_parse_render` — the text of a program is read only without such a pair.
* `parse_render_normal` — the layouts that are normal forms.
-/

set_option autoImplicit false

namespace DecimalLift

open Piece (Settled Unbroken symbol keyword separated parenthesized)

/-- No operator in the expressions of one statement stands behind another one of its kind. -/
def Statement.TrailsOnce (st : Statement) : Prop := ∀ e ∈ st.own, e.All Expression.TrailsOnce

/-- The kinds of token that a statement of a form can start with. -/
def Statement.opensWith : Statement → TokenKind → Bool
  | .imports .., k => k == .keyword .importWord
  | .exports .., k => k == .keyword .exportWord
  | .variable .., k => Parse.startsVariable (some k)
  | .function .., k => k == .keyword .functionWord
  | .returns .., k => k == .keyword .returnWord
  | .branch .., k => k == .keyword .ifWord
  | .whileLoop .., k => k == .keyword .whileWord
  | .forLoop .., k => k == .keyword .forWord
  | .block .., k => k == .symbol .leftBrace
  | .empty _, k => k == .symbol .semicolon
  | .expression .., k => k.startsExpression

namespace Parse

open ParserState (Takes kind?_of_tokens kind?_of_marks)

variable {o : LayoutOptions} {s s' : ParserState} {b : Bool} {rest ms : List Mark} {once : Prop}

/-! ## Tokens behind an expression -/

theorem takes_marks {k k' : TokenKind} (h : s.Takes k s') (hs : s.marks = (k', b) :: ms) :
    k = k' ∧ s'.marks = ms := by
  obtain ⟨t, ts, ht, rfl, rfl⟩ := h
  exact ⟨(head_of_marks hs ht).1, (head_of_marks hs ht).2.2⟩

theorem takes_unique {k k' : TokenKind} {s₁ s₂ : ParserState} (h : s.Takes k s₁)
    (h' : s.Takes k' s₂) : s₁ = s₂ := by
  obtain ⟨t, ts, ht, -, rfl⟩ := h
  obtain ⟨t', ts', ht', -, rfl⟩ := h'
  rw [ht] at ht'
  cases ht'
  rfl

/-- A symbol that is taken behind an expression is the one at the seam. -/
theorem Ended.takes {k : TokenKind} {y : Symbol} (h : Ended once ((k, b) :: ms) s)
    (htakes : s.Takes (.symbol y) s')
    (hy : TokenKind.symbol y ≠ .symbol .plusPlus ∧ TokenKind.symbol y ≠ .symbol .minusMinus) :
    once ∧ .symbol y = k ∧ s'.marks = ms := by
  obtain ⟨honce, hs⟩ := h.resolve_left (not_jammed htakes.kind? hy.1 hy.2)
  exact ⟨honce, takes_marks htakes hs⟩

/-- A statement that ends behind an expression ends with the semicolon at the seam. -/
theorem Ended.endsStatement (h : Ended once ((.symbol .semicolon, b) :: ms) s)
    (hend : EndsStatement s s') : once ∧ s'.marks = ms := by
  cases hend with
  | semicolon htakes =>
    obtain ⟨honce, -, hs'⟩ := h.takes htakes (by decide)
    exact ⟨honce, hs'⟩
  | implied hsemicolon hbreak =>
    rcases h with hjam | ⟨-, hs⟩
    · obtain ⟨t, ts, ht⟩ := hjam.exists_head
      obtain ⟨hfalse, hk⟩ := hjam.head ht
      rcases hbreak t (by rw [ht]; rfl) with htrue | hbrace | hend
      · rw [hfalse] at htrue
        cases htrue
      · rcases hk with hk | hk <;> rw [hk] at hbrace <;> cases hbrace
      · rcases hk with hk | hk <;> rw [hk] at hend <;> cases hend
    · exact absurd (kind?_of_marks hs) hsemicolon

/-- A whole expression in front of a symbol that may follow it. -/
theorem expressionEnds (e : Expression) {y : Symbol} {e' : Expression}
    (hs : s.marks = Piece.marks b e.pieces ++ (.symbol y, false) :: ms)
    (hy : TokenKind.extendsExpression (.symbol y) = false) (hread : Reads .assignment s e' s') :
    Ended (e.All Expression.TrailsOnce) ((.symbol y, false) :: ms) s' :=
  (seamed e).whole.ends hs (notAt_cons.2 hy) hread

/-! ## Declarations -/

theorem ascribedEnds {type type' : Option String} (h : WrittenType type)
    (hs : s.marks = Piece.marks false (o.ascriptionPieces type) ++ rest)
    (hrest : NotAt TokenKind.extendsType rest) (hread : ReadsAscribed s type' s') :
    s'.marks = rest := by
  obtain ⟨s₁, hread₁, hs₁⟩ := readsAscribed_back h hs hrest
  have hok := (ascription?_eq_ok.2 hread).symm.trans (ascription?_eq_ok.2 hread₁)
  cases hok
  exact hs₁

theorem parametersEnd {ps ps' : List Parameter} (h : ∀ p ∈ ps, WrittenType p.ascription)
    (hs : s.marks = Piece.marks false (separated (ps.map (Parameter.pieces o))) ++
      (.symbol .rightParen, b) :: ms) (hread : ReadsParameters s ps' s') :
    s'.marks = (.symbol .rightParen, b) :: ms := by
  obtain ⟨s₁, hread₁, hs₁⟩ := readsParameters_back h hs
  have hok := (parameters_eq_ok.2 hread).symm.trans (parameters_eq_ok.2 hread₁)
  cases hok
  exact hs₁

/-- One variable, in front of a comma or a semicolon. -/
theorem declaratorEnds {d : Declarator} (htype : WrittenType d.ascription) {y : Symbol}
    (hy : y = .comma ∨ y = .semicolon)
    (hs : s.marks = Piece.marks false (d.pieces o) ++ (.symbol y, false) :: ms) {name : String}
    {type : Option String} {initial : Option Expression} {s₁ s₂ : ParserState}
    (hname : s.Takes (.identifier name) s₁) (hread : ReadsAscribed s₁ type s₂)
    (hinitial : ReadsInitial s₂ initial s') :
    Ended (∀ e ∈ d.initial, e.All Expression.TrailsOnce) ((.symbol y, false) :: ms) s' := by
  unfold Declarator.pieces at hs
  rw [Piece.marks_append_of_settled (settled_ascribed htype d.name), List.append_assoc,
    Piece.marks_name] at hs
  obtain ⟨-, hs₁⟩ := takes_marks hname hs
  cases hd : d.initial with
  | none =>
    rw [hd] at hs₁
    have hs₂ := ascribedEnds htype hs₁ (notAt_cons.2 (by rcases hy with rfl | rfl <;> rfl)) hread
    cases hinitial with
    | none => exact Or.inr ⟨(fun _ h => nomatch h), hs₂⟩
    | some hequal =>
      obtain ⟨heq, -⟩ := takes_marks hequal hs₂
      rcases hy with rfl | rfl <;> cases heq
  | some e =>
    rw [hd] at hs₁
    have hs₂ := ascribedEnds htype hs₁ (notAt_cons.2 rfl) hread
    cases hinitial with
    | none hequal => exact absurd (kind?_of_marks hs₂) hequal
    | some hequal hread =>
      refine ((seamed e).wholeOperand.ends (takes_marks hequal hs₂).2 (notAt_cons.2 ?_)
        hread).imp_right (.imp_left ?_)
      · rcases hy with rfl | rfl <;> rfl
      · rintro honce _ ⟨⟩
        exact honce

theorem declaratorsEnd : ∀ {ds ds' : List Declarator} {s : ParserState}, ds ≠ [] →
    (∀ d ∈ ds, WrittenType d.ascription) →
    s.marks = Piece.marks false (separated (ds.map (Declarator.pieces o))) ++
      (.symbol .semicolon, false) :: ms → ReadsDeclarators s ds' s' →
    Ended (∀ d ∈ ds, ∀ e ∈ d.initial, e.All Expression.TrailsOnce)
      ((.symbol .semicolon, false) :: ms) s'
  | [], _, _, hne, _, _, _ => absurd rfl hne
  | [d], _, s, _, htype, hs, hread => by
    have htype := htype d List.mem_cons_self
    cases hread with
    | last hname hread hinitial _ =>
      have hone := declaratorEnds htype (Or.inr rfl) hs hname hread hinitial
      exact hone.imp_right (.imp_left (by simp))
    | more hname hread hinitial hcomma _ =>
      have hone := declaratorEnds htype (Or.inr rfl) hs hname hread hinitial
      obtain ⟨-, heq, -⟩ := hone.grown.takes hcomma (by decide)
      cases heq
  | d :: d' :: ds, _, s, _, htype, hs, hread => by
    obtain ⟨htype, htypes⟩ := List.forall_mem_cons.1 htype
    rw [List.map_cons, List.map_cons, Piece.marks_separated_cons (settled_declarator htype),
      List.append_assoc] at hs
    cases hread with
    | last hname hread hinitial hcomma =>
      rcases declaratorEnds htype (Or.inl rfl) hs hname hread hinitial with hjam | ⟨-, hs₃⟩
      · exact Or.inl hjam
      · exact absurd (kind?_of_marks hs₃) hcomma
    | more hname hread hinitial hcomma hreads =>
      have hone := declaratorEnds htype (Or.inl rfl) hs hname hread hinitial
      obtain ⟨honce, -, hs₄⟩ := hone.grown.takes hcomma (by decide)
      exact (declaratorsEnd (List.cons_ne_nil d' ds) htypes hs₄ hreads).imp_right
        (.imp_left fun honces => List.forall_mem_cons.2 ⟨honce, honces⟩)

theorem variableEnds {word word' : DeclarationWord} {ds ds' : List Declarator} (hne : ds ≠ [])
    (htype : ∀ d ∈ ds, WrittenType d.ascription)
    (hs : s.marks = Piece.marks b (Statement.variablePieces o word ds) ++
      (.symbol .semicolon, false) :: ms) (hread : ReadsVariable s word' ds' s') :
    Ended (∀ d ∈ ds, ∀ e ∈ d.initial, e.All Expression.TrailsOnce)
      ((.symbol .semicolon, false) :: ms) s' := by
  obtain ⟨hword, hread⟩ := hread
  exact declaratorsEnd hne htype (takes_marks hword hs).2 hread

theorem importEnds {d d' : ImportDeclaration} (h : d.Written)
    (hs : s.marks = Piece.marks b d.pieces ++ rest) (hread : ReadsImport s d' s') :
    s'.marks = rest := by
  obtain ⟨s₁, hread₁, hs₁⟩ := readsImport_back .typed h hs
  have hok := (importDeclaration_eq_ok.2 hread).symm.trans (importDeclaration_eq_ok.2 hread₁)
  cases hok
  exact hs₁

/-! ## First tokens of statements -/

/-- The first token tells the form of a statement. -/
theorem ReadsStatement.opensWith {st : Statement} (h : ReadsStatement s st s') {k : TokenKind}
    (hk : s.kind? = some k) : st.opensWith k = true := by
  cases h with
  | imports h =>
    obtain rfl := Option.some.inj (hk.symm.trans h.kind?)
    rfl
  | exports h | function h | returns h | branch h | branch_else h | whileLoop h | forLoop h
  | block h | empty h =>
    obtain rfl := Option.some.inj (hk.symm.trans h.kind?)
    rfl
  | declared h =>
    obtain rfl := Option.some.inj (hk.symm.trans h.kind?)
    exact startsVariable_keyword _
  | expression h =>
    obtain ⟨k', hk', hstart⟩ := startsExpression_of_assignment h
    obtain rfl := Option.some.inj (hk.symm.trans hk')
    exact hstart

theorem startsStatement_of_startsExpression (k : TokenKind) (h : k.startsExpression = true) :
    k.startsStatement = true := by
  cases k with
  | keyword w => simp only [TokenKind.startsStatement, h, Bool.or_true]
  | symbol y => simp only [TokenKind.startsStatement, h, Bool.or_true]
  | _ => exact h

/-- The layout of a statement starts with a token that a statement can start with. -/
theorem opens_statement (st : Statement) (depth : Nat) :
    Piece.Opens TokenKind.startsStatement (st.pieces o depth) := by
  cases st with
  | expression n e =>
    rw [Statement.pieces]
    exact ((seamed e).whole.opens.mono startsStatement_of_startsExpression).append _
  | «variable» n word ds =>
    rw [Statement.pieces]
    exact ⟨_, _, rfl, rfl, by cases word <;> rfl⟩
  | block n ss =>
    cases ss <;> rw [Statement.pieces, Statement.blockPieces] <;> exact ⟨_, _, rfl, rfl, rfl⟩
  | _ =>
    rw [Statement.pieces]
    exact ⟨_, _, rfl, rfl, rfl⟩

theorem notAt_else_of_opens {ps : List Piece} (h : Piece.Opens TokenKind.startsStatement ps)
    (b : Bool) (rest : List Mark) :
    NotAt (· == .keyword .elseWord) (Piece.marks b ps ++ rest) := by
  obtain ⟨k, qs, rfl, htrivia, hk⟩ := h
  rw [Piece.marks_token htrivia]
  refine notAt_cons.2 (beq_eq_false_iff_ne.2 ?_)
  rintro rfl
  cases hk

/-! ## Statements -/

/-- A reading of the layout of a statement ends right behind it, and there is one only if no
operator stands behind another one of its kind. -/
def StatementEnds (o : LayoutOptions) (depth : Nat) (st : Statement) : Prop :=
  ∀ ⦃s : ParserState⦄ ⦃b : Bool⦄ ⦃rest : List Mark⦄,
    s.marks = Piece.marks b (st.pieces o depth) ++ rest →
    (st.isOpen = true → NotAt (· == .keyword .elseWord) rest) →
    ∀ {st' : Statement} {s' : ParserState}, ReadsStatement s st' s' →
      st.All Statement.TrailsOnce ∧ s'.marks = rest

/-- The same of statements in front of a closing brace. -/
def BodyEnds (o : LayoutOptions) (depth : Nat) (ss : List Statement) : Prop :=
  ∀ ⦃s : ParserState⦄ ⦃b b' : Bool⦄ ⦃ms : List Mark⦄,
    s.marks = Piece.marks b (Statement.linesPieces o depth ss) ++ (.symbol .rightBrace, b') :: ms →
    ∀ {ss' : List Statement} {s' : ParserState}, ReadsBody s ss' s' →
      Statement.AllOf Statement.TrailsOnce ss ∧ s'.marks = (.symbol .rightBrace, b') :: ms

variable {n : Node} {depth : Nat}

theorem importsEnd {d : ImportDeclaration} (h : d.Written) :
    StatementEnds o depth (.imports n d) := by
  intro s b rest hs _ st' s' hread
  rw [Statement.pieces] at hs
  have hopens := hread.opensWith (kind?_of_marks hs)
  cases hread with
  | imports hread =>
    have hs' := importEnds h hs hread
    exact ⟨(fun _ h => nomatch h), hs'⟩
  | _ => cases hopens

theorem trailsOnce_variable {word : DeclarationWord} {ds : List Declarator}
    (h : ∀ d ∈ ds, ∀ e ∈ d.initial, e.All Expression.TrailsOnce) :
    (Statement.variable n word ds).TrailsOnce := by
  intro e he
  obtain ⟨d, hd, hinitial⟩ := List.mem_filterMap.1 he
  exact h d hd e hinitial

theorem declaredEnds {word : DeclarationWord} {ds : List Declarator}
    (h : (Statement.variable n word ds).Shaped) : StatementEnds o depth (.variable n word ds) := by
  intro s b rest hs _ st' s' hread
  have htype := fun d hd => (h.2 d hd).2
  rw [Statement.pieces, Piece.marks_append_of_settled (settled_variable h.1 htype),
    List.append_assoc] at hs
  have hopens := hread.opensWith (kind?_of_marks hs)
  cases hread with
  | declared hread hend =>
    obtain ⟨honce, hs'⟩ := (variableEnds h.1 htype hs hread).endsStatement hend
    exact ⟨trailsOnce_variable honce, hs'⟩
  | _ => cases word <;> cases hopens

/-- What stands between braces. -/
theorem blockEnds {ss ss' : List Statement} {s₁ s₂ : ParserState} (h : BodyEnds o (depth + 1) ss)
    (hs : s.marks = Piece.marks b (Statement.blockPieces o depth ss) ++ rest)
    (hopen : s.Takes (.symbol .leftBrace) s₁) (hread : ReadsBody s₁ ss' s₂)
    (hclose : s₂.Takes (.symbol .rightBrace) s') :
    Statement.AllOf Statement.TrailsOnce ss ∧ s'.marks = rest := by
  obtain ⟨b', hmarks⟩ := @Statement.marks_block o depth ss b
  rw [hmarks, List.cons_append, List.append_assoc] at hs
  obtain ⟨honce, hs₂⟩ := h (takes_marks hopen hs).2 hread
  exact ⟨honce, (takes_marks hclose hs₂).2⟩

theorem functionEnds {name : String} {ps : List Parameter} {result : Option String}
    {body : List Statement} (h : (Statement.function n name ps result body).Shaped)
    (hbody : BodyEnds o (depth + 1) body) :
    StatementEnds o depth (.function n name ps result body) := by
  intro s b rest hs _ st' s' hread
  rw [Statement.pieces, Statement.marks_function (fun p hp => (h.2.1 p hp).2) h.2.2] at hs
  simp only [List.cons_append, List.append_assoc] at hs
  have hopens := hread.opensWith (kind?_of_marks hs)
  have hbrace : NotAt TokenKind.extendsType (Piece.marks false
      (Statement.blockPieces o depth body) ++ rest) := by
    obtain ⟨b', hmarks⟩ := @Statement.marks_block o depth body false
    rw [hmarks]
    exact notAt_cons.2 rfl
  cases hread with
  | function hfunction hname hopen hparameters hclose hresult hopen' hread hend =>
    obtain ⟨-, hs₁⟩ := takes_marks hfunction hs
    obtain ⟨-, hs₂⟩ := takes_marks hname hs₁
    obtain ⟨-, hs₃⟩ := takes_marks hopen hs₂
    have hs₄ := parametersEnd (fun p hp => (h.2.1 p hp).2) hs₃ hparameters
    obtain ⟨-, hs₅⟩ := takes_marks hclose hs₄
    have hs₆ := ascribedEnds h.2.2 hs₅ hbrace hresult
    obtain ⟨honce, hs'⟩ := blockEnds hbody hs₆ hopen' hread hend
    exact ⟨⟨(fun _ h => nomatch h), honce⟩, hs'⟩
  | _ => cases hopens

theorem exportsEnd {inner : Statement} (h : inner.isDeclaration = true)
    (hinner : StatementEnds o depth inner) : StatementEnds o depth (.exports n inner) := by
  intro s b rest hs _ st' s' hread
  rw [Statement.pieces] at hs
  have hopens := hread.opensWith (kind?_of_marks hs)
  have hopen : inner.isOpen = true → NotAt (· == .keyword .elseWord) rest := by
    intro hopen
    cases inner <;> first | cases h; done | cases hopen
  cases hread with
  | exports hexport hread _ =>
    obtain ⟨honce, hs'⟩ := hinner (takes_marks hexport hs).2 hopen hread
    exact ⟨⟨(fun _ h => nomatch h), honce⟩, hs'⟩
  | _ => cases hopens

theorem trailsOnce_only {e : Expression} (h : e.All Expression.TrailsOnce) :
    ∀ e' ∈ [e], e'.All Expression.TrailsOnce := by
  simpa using h

theorem expressionStatementEnds {e : Expression} : StatementEnds o depth (.expression n e) := by
  intro s b rest hs _ st' s' hread
  rw [Statement.pieces, Piece.marks_append_of_settled (settled_pieces e), List.append_assoc] at hs
  obtain ⟨k, hk, hstart⟩ := (seamed e).whole.opens.kind? hs
  have hopens := hread.opensWith hk
  cases hread with
  | expression hread hend =>
    obtain ⟨honce, hs'⟩ := (expressionEnds e hs rfl hread).endsStatement hend
    exact ⟨trailsOnce_only honce, hs'⟩
  | declared =>
    rw [Statement.opensWith, not_startsVariable hstart] at hopens
    cases hopens
  | _ =>
    obtain rfl := eq_of_beq hopens
    cases hstart

theorem returnsEnd {value : Option Expression} : StatementEnds o depth (.returns n value) := by
  intro s b rest hs _ st' s' hread
  rw [Statement.pieces] at hs
  have hopens := hread.opensWith (kind?_of_marks hs)
  cases hread with
  | returns hreturn hread hend =>
    obtain ⟨-, hs₁⟩ := takes_marks hreturn hs
    cases value with
    | none =>
      cases hread with
      | none =>
        have hended : Ended True _ _ := Or.inr ⟨trivial, hs₁⟩
        exact ⟨(fun _ h => nomatch h), (hended.endsStatement hend).2⟩
      | some hnothing =>
        obtain ⟨t, ts, ht, hk, -⟩ := ParserState.exists_of_marks hs₁
        rw [ht] at hnothing
        simp [returnsNothing, hk] at hnothing
    | some e =>
      replace hs₁ : _ = Piece.marks false (e.pieces ++ [symbol .semicolon]) ++ rest := hs₁
      rw [Piece.marks_append_of_settled (settled_pieces e), List.append_assoc] at hs₁
      cases hread with
      | none hnothing =>
        obtain ⟨k, qs, hqs, htrivia, hstart⟩ := (seamed e).whole.opens
        rw [hqs, Piece.marks_token htrivia, List.cons_append] at hs₁
        obtain ⟨t, ts, ht, rfl, hbreak, -⟩ := ParserState.exists_of_marks hs₁
        rw [ht, List.head?_cons, returnsNothing_eq_false hbreak hstart] at hnothing
        cases hnothing
      | some _ hread =>
        obtain ⟨honce, hs'⟩ := (expressionEnds e hs₁ rfl hread).endsStatement hend
        exact ⟨trailsOnce_only honce, hs'⟩
  | _ => cases hopens

/-- A word and a condition in parentheses, in front of a body. -/
theorem conditionEnds {k : Keyword} {condition e : Expression} {body : Statement} {ps : List Piece}
    (hs : s.marks = Piece.marks b ([keyword k, .space] ++ parenthesized condition.pieces ++
      Statement.bodyLead o depth body :: ps) ++ rest)
    {s₁ s₂ s₃ : ParserState} (hword : s.Takes (.keyword k) s₁)
    (hopen : s₁.Takes (.symbol .leftParen) s₂) (hread : Reads .assignment s₂ e s₃)
    (hclose : s₃.Takes (.symbol .rightParen) s') :
    (∀ e' ∈ [condition], e'.All Expression.TrailsOnce) ∧
      ∃ b', s'.marks = Piece.marks b' ps ++ rest := by
  obtain ⟨u₁, u₂, b', hword', hopen', hs₂⟩ := takes_header (settled_pieces condition).unbroken hs
  obtain rfl := takes_unique hword hword'
  obtain rfl := takes_unique hopen hopen'
  obtain ⟨honce, -, hs'⟩ := (expressionEnds condition hs₂ rfl hread).takes hclose (by decide)
  exact ⟨trailsOnce_only honce, b', hs'⟩

theorem whileEnds {condition : Expression} {body : Statement}
    (hbody : StatementEnds o (Statement.bodyDepth depth body) body) :
    StatementEnds o depth (.whileLoop n condition body) := by
  intro s b rest hs helse st' s' hread
  rw [Statement.pieces] at hs
  have hopens := hread.opensWith (kind?_of_marks hs)
  cases hread with
  | whileLoop hwhile hopen hcondition hclose hread =>
    obtain ⟨honce, b', hs₄⟩ := conditionEnds hs hwhile hopen hcondition hclose
    obtain ⟨honce', hs'⟩ := hbody hs₄ helse hread
    exact ⟨⟨honce, honce'⟩, hs'⟩
  | _ => cases hopens

theorem branchEnds {condition : Expression} {yes : Statement}
    (hyes : StatementEnds o (Statement.bodyDepth depth yes) yes) :
    StatementEnds o depth (.branch n condition yes none) := by
  intro s b rest hs helse st' s' hread
  rw [Statement.pieces, Statement.elsePieces, List.append_nil] at hs
  have hopens := hread.opensWith (kind?_of_marks hs)
  have hrest : NotAt (· == .keyword .elseWord) rest := helse rfl
  cases hread with
  | branch hif hopen hcondition hclose hread _ =>
    obtain ⟨honce, b', hs₄⟩ := conditionEnds hs hif hopen hcondition hclose
    obtain ⟨honce', hs'⟩ := hyes hs₄ (fun _ => hrest) hread
    exact ⟨⟨honce, honce', trivial⟩, hs'⟩
  | branch_else hif hopen hcondition hclose hread helse' _ =>
    obtain ⟨-, b', hs₄⟩ := conditionEnds hs hif hopen hcondition hclose
    obtain ⟨-, rfl⟩ := hyes hs₄ (fun _ => hrest) hread
    exact absurd helse'.kind? (kind?_ne_of_notAt hrest (by decide))
  | _ => cases hopens

theorem branchElseEnds {condition : Expression} {yes no : Statement} (hclosed : yes.isOpen = false)
    (hyes : StatementEnds o (Statement.bodyDepth depth yes) yes)
    (hno : ∀ depth', StatementEnds o depth' no) :
    StatementEnds o depth (.branch n condition yes (some no)) := by
  intro s b rest hs helse st' s' hread
  obtain ⟨b₁, b₂, depth', hmarks⟩ := @Statement.marks_else o depth yes.isBlock no
  have hsettled : Settled ([keyword .ifWord, .space] ++ parenthesized condition.pieces ++
      Statement.bodyLead o depth yes :: yes.pieces o (Statement.bodyDepth depth yes)) :=
    ((Statement.settled_statement yes _).cons _).append_left _
  rw [Statement.pieces, Piece.marks_append_of_settled hsettled, hmarks, List.append_assoc] at hs
  have hopens := hread.opensWith (kind?_of_marks hs)
  cases hread with
  | branch hif hopen hcondition hclose hread helse' =>
    obtain ⟨-, b', hs₄⟩ := conditionEnds hs hif hopen hcondition hclose
    obtain ⟨-, hs₅⟩ := hyes hs₄ (by simp [hclosed]) hread
    exact absurd (kind?_of_marks hs₅) helse'
  | branch_else hif hopen hcondition hclose hread helse' hread' =>
    obtain ⟨honce, b', hs₄⟩ := conditionEnds hs hif hopen hcondition hclose
    obtain ⟨honce', hs₅⟩ := hyes hs₄ (by simp [hclosed]) hread
    obtain ⟨honce'', hs'⟩ := hno depth' (takes_marks helse' hs₅).2 helse hread'
    exact ⟨⟨honce, honce', honce''⟩, hs'⟩
  | _ => cases hopens

/-! ## Headers of `for` loops -/

/-- An expression of a header that may be left out. -/
theorem beforeEnds {e e' : Option Expression} {y : Symbol}
    (hy : y = .semicolon ∨ y = .rightParen)
    (hs : s.marks = Piece.marks false (Statement.spacedPieces e) ++ (.symbol y, false) :: ms)
    (hread : ReadsBefore y s e' s') :
    Ended (∀ e' ∈ e.toList, e'.All Expression.TrailsOnce) ((.symbol y, false) :: ms) s' := by
  cases e with
  | none =>
    cases hread with
    | none => exact Or.inr ⟨(fun _ h => nomatch h), hs⟩
    | some hclose => exact absurd (kind?_of_marks hs) hclose
  | some e =>
    cases hread with
    | none hclose =>
      obtain ⟨k, hk, hstart⟩ := (seamed e).whole.opens.kind? hs
      obtain rfl := Option.some.inj (hk.symm.trans hclose)
      rcases hy with rfl | rfl <;> cases hstart
    | some _ hread =>
      exact (expressionEnds e hs (by rcases hy with rfl | rfl <;> rfl) hread).imp_right
        (.imp_left trailsOnce_only)

theorem startEnds {start start' : Option Statement} (h : Statement.AllOption Statement.Spelt start)
    (hstart : ∀ first ∈ start, first.isStart = true)
    (hs : s.marks = Piece.marks false (Statement.startPieces o start) ++
      (.symbol .semicolon, false) :: ms) (hread : ReadsStart s start' s') :
    Ended (Statement.AllOption Statement.TrailsOnce start) ((.symbol .semicolon, false) :: ms)
      s' := by
  cases start with
  | none =>
    cases hread with
    | none => exact Or.inr ⟨trivial, hs⟩
    | declared hread =>
      have hk := (kind?_of_marks hs).symm.trans hread.kind?
      cases hk
    | expression hread =>
      obtain ⟨k, hk, hstart⟩ := startsExpression_of_assignment hread
      obtain rfl := Option.some.inj ((kind?_of_marks hs).symm.trans hk)
      cases hstart
  | some first =>
    cases first with
    | «variable» n word ds =>
      have hself : (Statement.variable n word ds).Spelt := h
      have hk := kind?_of_marks hs
      cases hread with
      | none hsemicolon => cases hk.symm.trans hsemicolon
      | declared hread =>
        exact (variableEnds hself.1.1 (fun d hd => (hself.1.2 d hd).2) hs hread).grown.imp_right
          (.imp_left trailsOnce_variable)
      | expression hread =>
        obtain ⟨k, hk', hstart⟩ := startsExpression_of_assignment hread
        obtain rfl := Option.some.inj (hk.symm.trans hk')
        have hnot := not_startsVariable hstart
        rw [startsVariable_keyword] at hnot
        cases hnot
    | expression n e =>
      obtain ⟨k, hk, hstart⟩ := (seamed e).whole.opens.kind? hs
      cases hread with
      | none hsemicolon =>
        obtain rfl := Option.some.inj (hk.symm.trans hsemicolon)
        cases hstart
      | declared hread =>
        obtain rfl := Option.some.inj (hk.symm.trans hread.kind?)
        have hnot := not_startsVariable hstart
        rw [startsVariable_keyword] at hnot
        cases hnot
      | expression hread =>
        exact (expressionEnds e hs rfl hread).grown.imp_right (.imp_left trailsOnce_only)
    | _ => cases hstart _ rfl

theorem forEnds {start : Option Statement} {condition update : Option Expression}
    {body : Statement} (h : (Statement.forLoop n start condition update body).Shaped)
    (hstart : Statement.AllOption Statement.Spelt start)
    (hbody : StatementEnds o (Statement.bodyDepth depth body) body) :
    StatementEnds o depth (.forLoop n start condition update body) := by
  intro s b rest hs helse st' s' hread
  have hfirst : Unbroken (Statement.startPieces o start) := Statement.unbroken_startPieces hstart
  have hsecond : Unbroken (Statement.startPieces o start ++
      symbol .semicolon :: Statement.spacedPieces condition) :=
    hfirst.append (Statement.unbroken_spacedPieces condition)
  have hthird : Unbroken (symbol .semicolon :: Statement.spacedPieces update) :=
    Statement.unbroken_spacedPieces update
  rw [Statement.pieces] at hs
  have hopens := hread.opensWith (kind?_of_marks hs)
  obtain ⟨s₁, s₂, b', hfor, hopen, hs₂⟩ := takes_header (hsecond.append hthird) hs
  rw [Piece.marks_append_of_unbroken hsecond, Piece.marks_append_of_unbroken hfirst,
    List.append_assoc, List.append_assoc] at hs₂
  cases hread with
  | forLoop hfor' hopen' hstart' hsemicolon hcondition hsemicolon' hupdate hclose hread =>
    obtain rfl := takes_unique hfor hfor'
    obtain rfl := takes_unique hopen hopen'
    obtain ⟨honce, -, hs₄⟩ := (startEnds hstart h hs₂ hstart').takes hsemicolon (by decide)
    obtain ⟨honce', -, hs₆⟩ :=
      (beforeEnds (Or.inl rfl) hs₄ hcondition).takes hsemicolon' (by decide)
    obtain ⟨honce'', -, hs₈⟩ := (beforeEnds (Or.inr rfl) hs₆ hupdate).takes hclose (by decide)
    obtain ⟨honces, hs'⟩ := hbody hs₈ helse hread
    exact ⟨⟨fun e he => (List.mem_append.1 he).elim (honce' e) (honce'' e), honce, honces⟩, hs'⟩
  | _ => cases hopens

theorem blockStatementEnds {ss : List Statement} (h : BodyEnds o (depth + 1) ss) :
    StatementEnds o depth (.block n ss) := by
  intro s b rest hs _ st' s' hread
  rw [Statement.pieces] at hs
  obtain ⟨b', hmarks⟩ := @Statement.marks_block o depth ss b
  have hk : s.kind? = some (.symbol .leftBrace) := by
    rw [hmarks] at hs
    exact kind?_of_marks hs
  have hopens := hread.opensWith hk
  cases hread with
  | block hopen hread hclose =>
    obtain ⟨honce, hs'⟩ := blockEnds h hs hopen hread hclose
    exact ⟨⟨(fun _ h => nomatch h), honce⟩, hs'⟩
  | _ => cases hopens

theorem emptyEnds : StatementEnds o depth (.empty n) := by
  intro s b rest hs _ st' s' hread
  rw [Statement.pieces] at hs
  have hopens := hread.opensWith (kind?_of_marks hs)
  cases hread with
  | empty htakes =>
    obtain ⟨-, hs'⟩ := takes_marks htakes hs
    exact ⟨(fun _ h => nomatch h), hs'⟩
  | _ => cases hopens

/-! ## All statements -/

theorem bodyEnds_nil : BodyEnds o depth [] := by
  intro s b b' ms hs ss' s' hread
  rw [Statement.linesPieces] at hs
  cases hread with
  | close => exact ⟨trivial, hs⟩
  | more hread =>
    obtain ⟨k, hk, hstart⟩ := hread.starts
    obtain rfl := Option.some.inj ((kind?_of_marks hs).symm.trans hk)
    cases hstart

/-- What follows a statement in a body is no `else`. -/
theorem notAt_else_lines (ss : List Statement) (b b' : Bool) :
    NotAt (· == .keyword .elseWord)
      (Piece.marks b (Statement.linesPieces o depth ss) ++ (.symbol .rightBrace, b') :: ms) := by
  cases ss with
  | nil =>
    rw [Statement.linesPieces]
    exact notAt_cons.2 rfl
  | cons st ss =>
    rw [Statement.linesPieces, List.cons_append]
    unfold LayoutOptions.line
    rw [Piece.marks_line]
    exact notAt_else_of_opens ((opens_statement st depth).append _) true _

theorem StatementEnds.cons {st : Statement} {ss : List Statement} (h : StatementEnds o depth st)
    (hss : BodyEnds o depth ss) : BodyEnds o depth (st :: ss) := by
  intro s b b' ms hs ss' s' hread
  rw [Statement.linesPieces, List.cons_append] at hs
  unfold LayoutOptions.line at hs
  rw [Piece.marks_line, Piece.marks_append_of_settled (Statement.settled_statement st depth),
    List.append_assoc] at hs
  cases hread with
  | close hbrace =>
    obtain ⟨k, hk, hstart⟩ := (opens_statement st depth).kind? hs
    obtain rfl := Option.some.inj (hk.symm.trans hbrace)
    cases hstart
  | more hread hreads =>
    obtain ⟨honce, hs₁⟩ := h hs (fun _ => notAt_else_lines ss false b') hread
    obtain ⟨honces, hs'⟩ := hss hs₁ hreads
    exact ⟨⟨honce, honces⟩, hs'⟩

mutual

/-- **A reading of the layout of a statement ends right behind it**, and there is one only if no
operator stands behind another one of its kind. -/
theorem statementEnds : ∀ {st : Statement} (depth : Nat), st.All Statement.Spelt →
    StatementEnds o depth st
  | .imports .., _, h => importsEnd h.1
  | .variable .., _, h => declaredEnds h.1
  | .function .., depth, h => functionEnds h.1.1 (bodyEnds (depth + 1) h.2)
  | .exports .., depth, h => exportsEnd h.1.1 (statementEnds depth h.2)
  | .expression .., _, _ => expressionStatementEnds
  | .returns .., _, _ => returnsEnd
  | .branch _ _ _ none, _, h => branchEnds (statementEnds _ h.2.1)
  | .branch _ _ _ (some _), _, h =>
    branchElseEnds (h.1.1 rfl) (statementEnds _ h.2.1) fun depth' => statementEnds depth' h.2.2
  | .whileLoop .., _, h => whileEnds (statementEnds _ h.2)
  | .forLoop .., _, h => forEnds h.1.1 h.2.1 (statementEnds _ h.2.2)
  | .block .., depth, h => blockStatementEnds (bodyEnds (depth + 1) h.2)
  | .empty _, _, _ => emptyEnds

theorem bodyEnds : ∀ {ss : List Statement} (depth : Nat), Statement.AllOf Statement.Spelt ss →
    BodyEnds o depth ss
  | [], _, _ => bodyEnds_nil
  | _ :: _, depth, h => (statementEnds depth h.1).cons (bodyEnds depth h.2)

end

/-- Statements up to the end of file. -/
theorem fileEnds {b' : Bool} : ∀ {ss ss' : List Statement} {s : ParserState} {b : Bool},
    Statement.AllOf Statement.Spelt ss →
    s.marks = Piece.marks b (ss.flatMap fun st => st.pieces o 0 ++ [.line 0]) ++
      [(.endOfFile, b')] →
    ReadsFile s ss' s' → Statement.AllOf Statement.TrailsOnce ss
  | [], _, _, _, _, _, _ => trivial
  | st :: ss, _, s, b, h, hs, hread => by
    rw [List.flatMap_cons, List.append_assoc, Piece.marks_append_of_settled
      (Statement.settled_statement st 0), List.append_assoc] at hs
    have hnext : NotAt (· == .keyword .elseWord) (Piece.marks true
        (ss.flatMap fun st => st.pieces o 0 ++ [.line 0]) ++ [(.endOfFile, b')]) := by
      cases ss with
      | nil => exact notAt_cons.2 rfl
      | cons st' ss =>
        rw [List.flatMap_cons, List.append_assoc]
        exact notAt_else_of_opens ((opens_statement st' 0).append _) true _
    cases hread with
    | stop hend =>
      obtain ⟨k, hk, hstart⟩ := (opens_statement st 0).kind? hs
      obtain ⟨t, ts, ht, rfl⟩ := ParserState.exists_of_kind? hk
      have hkind : t.kind = .endOfFile := by simpa [ParserState.isAt, ht] using hend
      rw [hkind] at hstart
      cases hstart
    | more hread hreads =>
      obtain ⟨honce, hs₁⟩ := statementEnds 0 h.1 hs (fun _ => hnext) hread
      exact ⟨honce, fileEnds h.2 hs₁ hreads⟩

end Parse

/-! ## Programs -/

/-- **The text of a program that was read is read again only if no operator in it stands behind
another one of its kind.** -/
theorem Program.trailsOnce_of_parse_render {source file : String} {p : Program}
    (h : Program.parse source file = .ok p) {o : LayoutOptions} {file' : String} {q : Program}
    (hq : Program.parse (p.render o) file' = .ok q) : p.AllExpressions Expression.TrailsOnce := by
  obtain ⟨ts, b, hts, hmarks⟩ :=
    Piece.exists_tokenize_render (Program.spaced (o := o) (Program.spelt h)) file'
  obtain ⟨ts', ss, s', hts', hread, -⟩ := Program.parse_eq_ok.1 hq
  obtain rfl := Except.ok.inj (hts.symm.trans hts')
  exact Parse.fileEnds (Program.spelt h) hmarks hread

/-- **The layouts that are normal forms.** For every text that is read and all options, the text of
its program is read again and has the same text if and only if no operator in the program stands
behind another one of its kind. -/
theorem parse_render_normal {source file : String} {p : Program}
    (h : Program.parse source file = .ok p) (o : LayoutOptions) (file' : String) :
    (∃ q, Program.parse (p.render o) file' = .ok q ∧ q.render o = p.render o) ↔
      p.AllExpressions Expression.TrailsOnce := by
  constructor
  · rintro ⟨q, hq, -⟩
    exact Program.trailsOnce_of_parse_render h hq
  · intro honce
    obtain ⟨q, hq, -, hsame⟩ := Program.exists_parse_render (Program.written h honce) o file'
    exact ⟨q, hq, Program.render_eq_of_relabel (Relabel.faithful_erase o)
      (LayoutOptions.faithful_shown o) hsame⟩

theorem parse_render_normal_sample :
    ∃ p, Program.parse Program.sample "m.ts" = .ok p ∧ p.AllExpressions Expression.TrailsOnce ∧
      ∃ q, Program.parse (p.render ⟨false, 2⟩) "n.ts" = .ok q ∧
        q.render ⟨false, 2⟩ = p.render ⟨false, 2⟩ := by
  have h : (Program.parse Program.sample "m.ts").toOption.any
      (fun p => decide (p.AllExpressions Expression.TrailsOnce)) = true := by
    decide +kernel
  cases hp : Program.parse Program.sample "m.ts" with
  | error e =>
    rw [hp] at h
    cases h
  | ok p =>
    rw [hp] at h
    have honce : p.AllExpressions Expression.TrailsOnce := of_decide_eq_true h
    exact ⟨p, rfl, honce, (parse_render_normal hp ⟨false, 2⟩ "n.ts").2 honce⟩

/-- An operator behind another one of its kind. -/
def Program.twice : String := "(x++)++;"

/-- The parentheses are left out, and without them the text is not read, whatever the options. -/
theorem parse_render_twice :
    ∃ p, Program.parse Program.twice "m.ts" = .ok p ∧
      (p.statements.flatMap Statement.own).map Expression.render = ["x++++"] ∧
      ∀ o file q, Program.parse (p.render o) file ≠ .ok q := by
  have h : (Program.parse Program.twice "m.ts").toOption.any (fun p =>
      decide ((p.statements.flatMap Statement.own).map Expression.render = ["x++++"] ∧
        ¬p.AllExpressions Expression.TrailsOnce)) = true := by
    decide +kernel
  cases hp : Program.parse Program.twice "m.ts" with
  | error e =>
    rw [hp] at h
    cases h
  | ok p =>
    rw [hp] at h
    obtain ⟨htext, hnot⟩ := of_decide_eq_true h
    exact ⟨p, rfl, htext, fun o file q hq => hnot (Program.trailsOnce_of_parse_render hp hq)⟩

end DecimalLift
