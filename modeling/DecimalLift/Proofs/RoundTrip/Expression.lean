import DecimalLift.Proofs.Layout.Expression
import DecimalLift.Proofs.Parse.Expression
import DecimalLift.Proofs.RoundTrip.Basic

/-!
# Expressions are read back

A layout is read back if the readers, started on a queue with its marks in front, take the
expression it was made of and stop right behind it. How much of a layout a reader can take depends
on the level it starts at, so the statement comes in four strengths, from the loosest level to the
tightest.

* `ReadsWhole`, `ReadsBinary`, `ReadsUnary`, `ReadsChain` — a layout is read back as an expression,
  as the first operands of a sequence of operators, as one operand, or as the start of a chain.
* `Readable` — the layout of an expression is read back at every level that its precedence allows.
* `readable` — every written expression is readable. Parentheses stand where they are needed.
* `expression_render` — the text of a written expression is read back, and nothing is left of it.
-/

set_option autoImplicit false

namespace DecimalLift

open Piece (Settled symbol keyword comma separated parenthesized parenthesizedIf)

/-! ## Precedences -/

namespace BinaryOp

variable {op : BinaryOp}

theorem precedence_lt_of_isAssignment (h : op.isAssignment = true) :
    op.precedence < Precedence.nullish := by
  cases op <;> first | decide | cases h

theorem operandLevels_of_isAssignment (h : op.isAssignment = true) :
    op.operandLevels = (Precedence.member, Precedence.assignment) := by
  rw [operandLevels, if_pos h]

/-- What the operands of an operator are printed at is at least as tight as what they are read
at. -/
theorem levels_of_not_isAssignment (h : op.isAssignment = false) :
    Precedence.nullish ≤ op.precedence ∧ op.precedence ≤ op.operandLevels.1 ∧
      op.rightLevel ≤ op.operandLevels.2 ∧ Precedence.nullish ≤ op.operandLevels.2 := by
  cases op <;> first | decide | cases h

/-- A left operand that needs no parentheses does not take the operator behind it. -/
theorem precedence_lt_rightLevel (h : op.isAssignment = false) {inner : BinaryOp}
    (hle : op.operandLevels.1 ≤ inner.precedence) : op.precedence < inner.rightLevel := by
  have htable : ∀ op ∈ all, op.isAssignment = false → ∀ inner ∈ all,
      op.operandLevels.1 ≤ inner.precedence → op.precedence < inner.rightLevel := by
    decide
  exact htable op (by cases op <;> decide) h inner (by cases inner <;> decide) hle

end BinaryOp

/-- Operators behind the expression that are this tight or tighter would be taken into it. -/
def Expression.limit : Expression → Nat
  | .binary _ op _ _ => op.rightLevel
  | _ => Precedence.primary

namespace Expression

theorem assignment_le_precedence (e : Expression) : Precedence.assignment ≤ e.precedence := by
  cases e with
  | binary n op left right =>
    simp only [precedence]
    cases op <;> decide
  | unary n op operand =>
    simp only [precedence]
    split <;> decide
  | _ => simp only [precedence]; decide

theorem precedence_le_limit (e : Expression) : e.precedence ≤ e.limit := by
  cases e with
  | binary n op left right => exact op.precedence_le_rightLevel
  | unary n op operand =>
    simp only [precedence, limit]
    split <;> decide
  | _ => simp only [precedence, limit]; decide

theorem succ_precedence_le_limit {op : BinaryOp} (hop : op.isAssignment = false) {e : Expression}
    (hle : op.operandLevels.1 ≤ e.precedence) : op.precedence + 1 ≤ e.limit := by
  cases e with
  | binary n inner left right => exact BinaryOp.precedence_lt_rightLevel hop hle
  | _ => exact Nat.le_trans op.precedence_lt_unary (by simp only [limit]; decide)

/-- Only an operator behind its operand is as tight as a trailing expression and no tighter. -/
theorem member_le_precedence {e : Expression} (h : e.isTrailing = false)
    (hle : Precedence.trailing ≤ e.precedence) : Precedence.member ≤ e.precedence := by
  cases e with
  | binary n op left right =>
    exact absurd (Nat.lt_trans op.precedence_lt_unary (by decide)) (Nat.not_lt.2 hle)
  | conditional => exact absurd hle (by simp only [precedence]; decide)
  | unary n op operand =>
    replace h : op.isTrailing = false := h
    simp only [precedence, h] at hle
    exact absurd hle (by decide)
  | _ => simp only [precedence]; decide

end Expression

namespace Parse

open ParserState (exists_of_marks kind?_of_marks)

section

variable {s : ParserState}

theorem endsChain_of_notAt (h : NotAt TokenKind.extendsOperand s.marks) (calls : Bool) :
    endsChain calls s :=
  ⟨kind?_ne_of_notAt h rfl, kind?_ne_of_notAt h rfl, fun _ => kind?_ne_of_notAt h rfl⟩

theorem trailingOp?_of_notAt (h : NotAt TokenKind.extendsOperand s.marks) :
    trailingOp? s = none := by
  unfold trailingOp?
  cases hs : s.tokens with
  | nil => rfl
  | cons t ts =>
    have hk : t.kind.extendsOperand = false := notAt_marks.1 h _ (ParserState.kind?_of_tokens hs)
    have hop : UnaryOp.ofTrailing? t.kind = none := by
      cases hkind : t.kind with
      | symbol y =>
        rw [hkind] at hk
        cases y <;> first | rfl | cases hk
      | _ => rfl
    simp [hop]

end

/-! ## Levels -/

/-- The layout is read back as the start of a chain; arguments may follow it if `calls` allows. -/
def ReadsChain (calls : Bool) (ps : List Piece) (e : Expression) : Prop :=
  ∀ ⦃s : ParserState⦄ ⦃b : Bool⦄ ⦃rest : List Mark⦄, s.marks = Piece.marks b ps ++ rest →
    ∃ first s₁ e' s', Reads .head s first s₁ ∧ s'.marks = rest ∧ e'.Copy e ∧
      ∀ {f : Expression} {s'' : ParserState}, Reads (.suffixes calls e') s' f s'' →
        Reads (.suffixes calls first) s₁ f s''

/-- The layout is read back as one operand. -/
def ReadsUnary (ps : List Piece) (e : Expression) : Prop :=
  ∀ ⦃s : ParserState⦄ ⦃b : Bool⦄ ⦃rest : List Mark⦄, s.marks = Piece.marks b ps ++ rest →
    NotAt TokenKind.extendsOperand rest →
    ∃ e' s', Reads .unary s e' s' ∧ s'.marks = rest ∧ e'.Copy e

/-- The layout is read back as the first operands of a sequence of operators, none of them looser
than `least`, if the next operator is looser than `limit`. -/
def ReadsBinary (least limit : Nat) (ps : List Piece) (e : Expression) : Prop :=
  ∀ ⦃s : ParserState⦄ ⦃b : Bool⦄ ⦃rest : List Mark⦄, s.marks = Piece.marks b ps ++ rest →
    NotAt TokenKind.extendsOperand rest → Below limit rest →
    ∃ first s₁ e' s', Reads .unary s first s₁ ∧ s'.marks = rest ∧ e'.Copy e ∧
      ∀ {f : Expression} {s'' : ParserState}, Reads (.climb least e') s' f s'' →
        Reads (.climb least first) s₁ f s''

/-- The layout is read back as a whole expression. -/
def ReadsWhole (ps : List Piece) (e : Expression) : Prop :=
  ∀ ⦃s : ParserState⦄ ⦃b : Bool⦄ ⦃rest : List Mark⦄, s.marks = Piece.marks b ps ++ rest →
    NotAt TokenKind.extendsExpression rest →
    ∃ e' s', Reads .assignment s e' s' ∧ s'.marks = rest ∧ e'.Copy e

variable {ps : List Piece} {e : Expression}

theorem ReadsChain.call (h : ReadsChain true ps e) {s : ParserState} {b : Bool} {rest : List Mark}
    (hs : s.marks = Piece.marks b ps ++ rest) :
    ∃ e' s', s'.marks = rest ∧ e'.Copy e ∧
      (endsChain true s' → Reads .call s e' s') := by
  obtain ⟨first, s₁, e', s', hfirst, hs', hcopy, hgo⟩ := h hs
  exact ⟨e', s', hs', hcopy, fun hends => .call hfirst (hgo (.suffixes_stop hends))⟩

theorem unary_of_trailing {s s' : ParserState} (h : Reads .trailing s e s') :
    Reads .unary s e s' := by
  obtain ⟨k, hk, hstart⟩ := startsChain_of_trailing h
  refine .unary_plain ?_ h
  rw [hk, Option.bind_some, ofLeading?_of_startsChain hstart]

theorem ReadsChain.unary (h : ReadsChain true ps e) : ReadsUnary ps e := by
  intro s b rest hs hrest
  obtain ⟨e', s', hs', hcopy, hcall⟩ := h.call hs
  rw [← hs'] at hrest
  exact ⟨e', s', unary_of_trailing (.trailing_plain (hcall (endsChain_of_notAt hrest true))
    (trailingOp?_of_notAt hrest)), hs', hcopy⟩

theorem ReadsUnary.binary (h : ReadsUnary ps e) (least limit : Nat) :
    ReadsBinary least limit ps e := by
  intro s b rest hs hrest _
  obtain ⟨e', s', hread, hs', hcopy⟩ := h hs hrest
  exact ⟨e', s', e', s', hread, hs', hcopy, fun h => h⟩

/-- Where no operator follows, the operands are all that is read. -/
theorem ReadsBinary.run {least limit : Nat} (h : ReadsBinary least limit ps e) {s : ParserState}
    {b : Bool} {rest : List Mark} (hs : s.marks = Piece.marks b ps ++ rest)
    (hoperand : NotAt TokenKind.extendsOperand rest)
    (hop : NotAt (fun k => (BinaryOp.ofOperand? k).isSome) rest) :
    ∃ e' s', Reads (.binary least) s e' s' ∧ s'.marks = rest ∧ e'.Copy e := by
  obtain ⟨first, s₁, e', s', hfirst, hs', hcopy, hgo⟩ := h hs hoperand (below_of_notAt hop limit)
  rw [← hs'] at hop
  exact ⟨e', s', .binary hfirst (hgo (.climb_stop (below_marks.1 (below_of_notAt hop least)))), hs',
    hcopy⟩

theorem ReadsBinary.whole {limit : Nat} (h : ReadsBinary Precedence.nullish limit ps e) :
    ReadsWhole ps e := by
  intro s b rest hs hrest
  obtain ⟨e', s', hread, hs', hcopy⟩ := h.run hs
    (hrest.mono fun k hk => (TokenKind.extendsExpression_eq_false.1 hk).1)
    (hrest.mono fun k hk => by rw [(TokenKind.extendsExpression_eq_false.1 hk).2.1]; rfl)
  rw [← hs'] at hrest
  refine ⟨e', s', .assignment_plain (.conditional_plain hread (kind?_ne_of_notAt hrest rfl)) ?_,
    hs', hcopy⟩
  exact bind_kind?_of_notAt hrest fun k hk => (TokenKind.extendsExpression_eq_false.1 hk).2.2.1

/-! ## Chains -/

/-- Parentheses around a layout make it the start of a chain. -/
theorem ReadsWhole.group (h : ReadsWhole ps e) (hps : Settled ps) (calls : Bool) :
    ReadsChain calls (parenthesized ps) e := by
  intro s b rest hs
  rw [Piece.marks_parenthesized hps.unbroken, List.cons_append, List.append_assoc] at hs
  obtain ⟨t, ts, ht, hk, -, hpast⟩ := exists_of_marks hs
  obtain ⟨e', s₁, hread, hs₁, hcopy⟩ := h hpast (notAt_cons.2 rfl)
  obtain ⟨u, us, hu, hclose, -, hrest⟩ := exists_of_marks hs₁
  have hnew : s.kind? ≠ some (.keyword .newWord) := by
    rw [kind?_of_marks hs]
    decide
  exact ⟨e', s₁.past u us, e', s₁.past u us, .head_primary hnew (.group ht hk hread hu hclose),
    hrest, hcopy, fun h => h⟩

/-- A single token that is an expression of its own. -/
theorem readsChain_token {k : TokenKind} (make : Node → Expression) (htrivia : k.trivia? = none)
    (hnew : k ≠ .keyword .newWord)
    (hread : ∀ {s : ParserState} {t : Token} {ts : List Token}, s.tokens = t :: ts → t.kind = k →
      Reads .primary s (make ((s.past t ts).nodeFrom t.span.start)) (s.past t ts).grown)
    (hcopy : ∀ n, (make n).Copy e) (calls : Bool) : ReadsChain calls [.token k] e := by
  intro s b rest hs
  rw [Piece.marks_token htrivia, Piece.marks_nil] at hs
  obtain ⟨t, ts, ht, hk, -, hrest⟩ := exists_of_marks hs
  have hne : s.kind? ≠ some (.keyword .newWord) := by
    rw [kind?_of_marks hs]
    exact fun h => hnew (Option.some.inj h)
  exact ⟨_, _, _, (s.past t ts).grown, .head_primary hne (hread ht hk), hrest, hcopy _,
    fun h => h⟩

/-- Expressions between commas are read back, up to the symbol behind them. -/
def ReadsElements (es : List Expression) : Prop :=
  ∀ ⦃close : Symbol⦄ ⦃s : ParserState⦄ ⦃rest : List Mark⦄,
    close = .rightParen ∨ close = .rightBracket →
    s.marks = Piece.marks false (separated (Expression.listPieces es)) ++
      (.symbol close, false) :: rest →
    ∃ es' s', ReadsAll close s es' s' ∧ s'.marks = rest ∧ Expression.CopyAll es' es

/-- Arguments between parentheses, ready to be read. -/
theorem marks_arguments (es : List Expression) (hps : Settled ps) (b : Bool) (rest : List Mark) :
    Piece.marks b (ps ++ parenthesized (separated (Expression.listPieces es))) ++ rest =
      Piece.marks b ps ++ (.symbol .leftParen, false) ::
        (Piece.marks false (separated (Expression.listPieces es)) ++
          (.symbol .rightParen, false) :: rest) := by
  rw [Piece.marks_append_of_settled hps, Piece.marks_parenthesized (unbroken_separated es)]
  simp only [List.append_assoc, List.cons_append, List.nil_append]

theorem readsChain_call {n : Node} {arguments : List Expression} (h : ReadsChain true ps e)
    (hps : Settled ps) (hargs : ReadsElements arguments) :
    ReadsChain true (ps ++ parenthesized (separated (Expression.listPieces arguments)))
      (.call n e arguments) := by
  intro s b rest hs
  rw [marks_arguments arguments hps] at hs
  obtain ⟨first, s₁, e', s₂, hfirst, hs₂, hcopy, hgo⟩ := h hs
  obtain ⟨t, ts, ht, hopen, -, hpast⟩ := exists_of_marks hs₂
  obtain ⟨es', s₃, hes, hs₃, hcopies⟩ := hargs (Or.inl rfl) hpast
  exact ⟨first, s₁, .call (s₃.nodeFrom e'.span.start) e' es', s₃.grown, hfirst, hs₃,
    hcopy.call hcopies, fun hf => hgo (.arguments ht hopen hes hf)⟩

theorem readsChain_construct {n : Node} {arguments : List Expression} (h : ReadsChain false ps e)
    (hps : Settled ps) (hargs : ReadsElements arguments) (calls : Bool) :
    ReadsChain calls ([keyword .newWord, .space] ++ ps ++
      parenthesized (separated (Expression.listPieces arguments))) (.construct n e arguments) := by
  intro s b rest hs
  simp only [List.cons_append, List.nil_append, Piece.marks_keyword, Piece.marks_space,
    marks_arguments arguments hps] at hs
  obtain ⟨t, ts, ht, hnew, -, hpast⟩ := exists_of_marks hs
  obtain ⟨first, s₁, e', s₂, hfirst, hs₂, hcopy, hgo⟩ := h hpast
  obtain ⟨u, us, hu, hopen, -, hinner⟩ := exists_of_marks hs₂
  obtain ⟨es', s₃, hes, hs₃, hcopies⟩ := hargs (Or.inl rfl) hinner
  -- without calls, the chain behind `new` ends before its arguments
  have hends : endsChain false s₂ := by
    unfold endsChain
    rw [kind?_of_marks hs₂]
    decide
  have hhead : Reads .head s (.construct (s₃.nodeFrom t.span.start) e' es') s₃.grown :=
    .head_new (by rw [ParserState.kind?_of_tokens ht, hnew])
      (.construction ht hnew hfirst (hgo (.suffixes_stop hends)) hu hopen hes)
  exact ⟨_, _, _, s₃.grown, hhead, hs₃, hcopy.construct hcopies, fun h => h⟩

theorem readsChain_member {n : Node} {property : String} {calls : Bool} (h : ReadsChain calls ps e)
    (hps : Settled ps) :
    ReadsChain calls (ps ++ [symbol .dot, .name property]) (.member n e property) := by
  intro s b rest hs
  rw [Piece.marks_append_of_settled hps, List.append_assoc] at hs
  obtain ⟨first, s₁, e', s₂, hfirst, hs₂, hcopy, hgo⟩ := h hs
  obtain ⟨t, ts, ht, hdot, -, hpast⟩ := exists_of_marks hs₂
  obtain ⟨u, us, hu, hname, -, hrest⟩ := exists_of_marks hpast
  rw [ParserState.past_tokens] at hu
  subst hu
  exact ⟨first, s₁, .member ((s₂.past u us).nodeFrom e'.span.start) e' property,
    (s₂.past u us).grown, hfirst, hrest, hcopy.member, fun hf => hgo (.member ht hdot hname hf)⟩

theorem readsChain_index {n : Node} {position : Expression} {calls : Bool}
    (h : ReadsChain calls ps e) (hps : Settled ps)
    (hposition : ReadsWhole position.pieces position) :
    ReadsChain calls (ps ++ symbol .leftBracket :: position.pieces ++ [symbol .rightBracket])
      (.index n e position) := by
  intro s b rest hs
  rw [List.append_assoc, Piece.marks_append_of_settled hps, List.append_assoc, List.cons_append,
    Piece.marks_symbol, Piece.marks_append_of_settled (settled_pieces position), List.cons_append,
    List.append_assoc] at hs
  obtain ⟨first, s₁, e', s₂, hfirst, hs₂, hcopy, hgo⟩ := h hs
  obtain ⟨t, ts, ht, hopen, -, hpast⟩ := exists_of_marks hs₂
  obtain ⟨f, s₃, hf, hs₃, hcopy'⟩ := hposition hpast (notAt_cons.2 rfl)
  obtain ⟨u, us, hu, hclose, -, hrest⟩ := exists_of_marks hs₃
  exact ⟨first, s₁, .index ((s₃.past u us).nodeFrom e'.span.start) e' f, (s₃.past u us).grown,
    hfirst, hrest, hcopy.index hcopy', fun hg => hgo (.index ht hopen hf hu hclose hg)⟩

theorem readsChain_array {n : Node} {elements : List Expression} (h : ReadsElements elements)
    (calls : Bool) :
    ReadsChain calls (symbol .leftBracket :: separated (Expression.listPieces elements) ++
      [symbol .rightBracket]) (.array n elements) := by
  intro s b rest hs
  rw [List.cons_append, Piece.marks_symbol,
    Piece.marks_append_of_unbroken (unbroken_separated elements), List.cons_append,
    List.append_assoc] at hs
  obtain ⟨t, ts, ht, hopen, -, hpast⟩ := exists_of_marks hs
  obtain ⟨es', s₁, hes, hs₁, hcopies⟩ := h (Or.inr rfl) hpast
  have hnew : s.kind? ≠ some (.keyword .newWord) := by
    rw [kind?_of_marks hs]
    decide
  exact ⟨_, _, _, s₁.grown, .head_primary hnew (.array ht hopen hes), hs₁, .array hcopies,
    fun h => h⟩

/-! ## Operands -/

theorem readsUnary_trailing {n : Node} {op : UnaryOp} (h : ReadsChain true ps e) (hps : Settled ps)
    (hop : op.isTrailing = true) : ReadsUnary (ps ++ [.token op.token]) (.unary n op e) := by
  intro s b rest hs _
  have htrivia : op.token.trivia? = none := by cases op <;> rfl
  rw [Piece.marks_append_of_settled hps, Piece.marks_token htrivia, Piece.marks_nil,
    List.append_assoc] at hs
  obtain ⟨e', s₁, hs₁, hcopy, hcall⟩ := h.call hs
  obtain ⟨t, ts, ht, hk, hbreak, hrest⟩ := exists_of_marks hs₁
  have hends : endsChain true s₁ := by
    unfold endsChain
    rw [kind?_of_marks hs₁]
    rcases UnaryOp.eq_of_isTrailing hop with rfl | rfl <;> decide
  have htrailing : trailingOp? s₁ = some op := by
    simp only [trailingOp?, ht, List.head?_cons, Option.bind_some, hbreak, hk]
    rcases UnaryOp.eq_of_isTrailing hop with rfl | rfl <;> rfl
  exact ⟨_, _, unary_of_trailing (.trailing (hcall hends) ht htrailing), hrest, hcopy.unary⟩

theorem readsUnary_leading {n : Node} {op : UnaryOp} (h : ReadsUnary ps e) (spaced : Bool)
    (hop : op.isTrailing = false) :
    ReadsUnary (.token op.token :: (if spaced then [.space] else []) ++ ps) (.unary n op e) := by
  intro s b rest hs hrest
  have htrivia : op.token.trivia? = none := by cases op <;> rfl
  have hleading : UnaryOp.ofLeading? op.token = some op := by
    cases op <;> first | rfl | cases hop
  have hmarks : Piece.marks false ((if spaced = true then [.space] else []) ++ ps) =
      Piece.marks false ps := by
    cases spaced <;> rfl
  rw [List.cons_append, Piece.marks_token htrivia, hmarks, List.cons_append] at hs
  obtain ⟨t, ts, ht, hk, -, hpast⟩ := exists_of_marks hs
  obtain ⟨e', s₁, hread, hs₁, hcopy⟩ := h hpast hrest
  exact ⟨_, _, .unary ht (by rw [hk, hleading]) hread, hs₁, hcopy.unary⟩

/-! ## Operators between operands -/

theorem ReadsBinary.mono {least limit limit' : Nat} (h : ReadsBinary least limit ps e)
    (hle : limit' ≤ limit) : ReadsBinary least limit' ps e := by
  intro s b rest hs hrest hbelow
  exact h hs hrest fun m hm op hop => Nat.lt_of_lt_of_le (hbelow m hm op hop) hle

theorem readsBinary_binary {n : Node} {op : BinaryOp} {least : Nat} {qs : List Piece}
    {right : Expression} (hop : op.isAssignment = false) (hleast : least ≤ op.precedence)
    (h : ReadsBinary least (op.precedence + 1) ps e) (hps : Settled ps)
    (hright : ReadsBinary op.rightLevel op.rightLevel qs right) :
    ReadsBinary least op.rightLevel (ps ++ [.space, symbol op.symbol, .space] ++ qs)
      (.binary n op e right) := by
  intro s b rest hs hrest hbelow
  have hoperand : BinaryOp.ofOperand? (.symbol op.symbol) = some op := by
    simp [BinaryOp.ofOperand?, BinaryOp.ofSymbol?_symbol, hop]
  rw [List.append_assoc, Piece.marks_append_of_settled hps, List.append_assoc] at hs
  obtain ⟨first, s₁, e', s₂, hfirst, hs₂, hcopy, hgo⟩ := h hs
    (notAt_cons.2 (by cases op <;> rfl)) (fun m hm op' hop' => by
      cases hm
      rw [Option.mem_def.1 hop'] at hoperand
      cases hoperand
      exact Nat.lt_succ_self _)
  obtain ⟨t, ts, ht, hk, -, hpast⟩ := exists_of_marks hs₂
  obtain ⟨first', s₃, f, s₄, hfirst', hs₄, hcopy', hgo'⟩ := hright hpast hrest hbelow
  have hbinary : Reads (.binary op.rightLevel) (s₂.past t ts) f s₄ := by
    refine .binary hfirst' (hgo' (.climb_stop ?_))
    rw [← hs₄] at hbelow
    exact below_marks.1 hbelow
  exact ⟨first, s₁, .binary ⟨s₄.nextId, e'.span.join f.span⟩ op e' f, s₄.grown, hfirst, hs₄,
    hcopy.binary hcopy', fun hg => hgo (.climb_step ht (by rw [hk, hoperand]) hleast hbinary hg)⟩

/-! ## Whole expressions -/

theorem readsWhole_conditional {n : Node} {limit : Nat} {qs rs : List Piece} {yes no : Expression}
    (h : ReadsBinary Precedence.nullish limit ps e) (hps : Settled ps) (hyes : ReadsWhole qs yes)
    (hqs : Settled qs) (hno : ReadsWhole rs no) :
    ReadsWhole (ps ++ [.space, symbol .question, .space] ++ qs ++ [.space, symbol .colon, .space] ++
      rs) (.conditional n e yes no) := by
  intro s b rest hs hrest
  simp only [List.append_assoc, Piece.marks_append_of_settled hps, List.cons_append,
    List.nil_append, Piece.marks_space, Piece.marks_symbol,
    Piece.marks_append_of_settled hqs] at hs
  obtain ⟨e', s₁, hread, hs₁, hcopy⟩ := h.run hs (notAt_cons.2 rfl) (notAt_cons.2 rfl)
  obtain ⟨t, ts, ht, hq, -, hpast⟩ := exists_of_marks hs₁
  obtain ⟨f, s₂, hf, hs₂, hcopyf⟩ := hyes hpast (notAt_cons.2 rfl)
  obtain ⟨u, us, hu, hcolon, -, hpast'⟩ := exists_of_marks hs₂
  obtain ⟨g, s₃, hg, hs₃, hcopyg⟩ := hno hpast' hrest
  rw [← hs₃] at hrest
  refine ⟨_, _, .assignment_plain (.conditional hread ht hq hf hu hcolon hg) ?_, hs₃,
    hcopy.conditional hcopyf hcopyg⟩
  exact bind_kind?_of_notAt hrest fun k hk => (TokenKind.extendsExpression_eq_false.1 hk).2.2.1

theorem readsWhole_assignment {n : Node} {op : BinaryOp} {limit : Nat} {qs : List Piece}
    {value : Expression} (hop : op.isAssignment = true)
    (h : ReadsBinary Precedence.nullish limit ps e) (hps : Settled ps)
    (hassign : e.isAssignable = true) (hvalue : ReadsWhole qs value) :
    ReadsWhole (ps ++ [.space, symbol op.symbol, .space] ++ qs) (.binary n op e value) := by
  intro s b rest hs hrest
  have hoperator : BinaryOp.ofAssignment? (.symbol op.symbol) = some op := by
    simp [BinaryOp.ofAssignment?, BinaryOp.ofSymbol?_symbol, hop]
  simp only [List.append_assoc, Piece.marks_append_of_settled hps, List.cons_append,
    List.nil_append, Piece.marks_space, Piece.marks_symbol] at hs
  have hnot : TokenKind.extendsOperand (.symbol op.symbol) = false ∧
      (BinaryOp.ofOperand? (.symbol op.symbol)).isSome = false ∧
      TokenKind.symbol op.symbol ≠ .symbol .question := by
    cases op <;> first | decide | cases hop
  obtain ⟨e', s₁, hread, hs₁, hcopy⟩ := h.run hs (notAt_cons.2 hnot.1) (notAt_cons.2 hnot.2.1)
  obtain ⟨t, ts, ht, hk, -, hpast⟩ := exists_of_marks hs₁
  obtain ⟨f, s₂, hf, hs₂, hcopyf⟩ := hvalue hpast hrest
  have hcond : Reads .conditional s e' s₁ :=
    .conditional_plain hread (by rw [kind?_of_marks hs₁]; simpa using hnot.2.2)
  exact ⟨_, _, .assignment hcond ht (by rw [hk, hoperator]) (hcopy.isAssignable.trans hassign) hf,
    hs₂, hcopy.binary hcopyf⟩

/-! ## Every written expression is read back -/

/-- An expression does not start with the symbol that closes a list. -/
theorem kind?_ne_close {close : Symbol} (hclose : close = .rightParen ∨ close = .rightBracket)
    {s s' : ParserState} (h : Reads .assignment s e s') : s.kind? ≠ some (.symbol close) := by
  obtain ⟨k, hk, hstart⟩ := startsExpression_of_assignment h
  rw [hk]
  rintro ⟨⟩
  rcases hclose with rfl | rfl <;> cases hstart

/-- An operand stands in parentheses, or it holds together tightly enough without. -/
theorem operand_cases {motive : List Piece → Prop} {level : Nat}
    (hwrapped : motive (parenthesized e.pieces))
    (hbare : level ≤ e.precedence → motive e.pieces) :
    motive (parenthesizedIf (e.precedence < level) e.pieces) := by
  by_cases hwrap : e.precedence < level
  · rw [decide_eq_true hwrap]
    exact hwrapped
  · rw [decide_eq_false hwrap]
    exact hbare (Nat.le_of_not_lt hwrap)

/-- The layout of an expression is read back at every level that its precedence allows. -/
structure Readable (e : Expression) : Prop where
  whole : ReadsWhole e.pieces e
  binary : ∀ {least : Nat}, least ≤ e.precedence → Precedence.nullish ≤ e.precedence →
    ReadsBinary least e.limit e.pieces e
  unary : Precedence.unary ≤ e.precedence → ReadsUnary e.pieces e
  chain : Precedence.member ≤ e.precedence → ∀ calls : Bool,
    (e.startsWithCall = true → calls = true) → ReadsChain calls e.pieces e

/-- A chain can be read at every level. -/
theorem Readable.ofChain (h : ∀ calls : Bool, (e.startsWithCall = true → calls = true) →
    ReadsChain calls e.pieces e) : Readable e := by
  have hunary := (h true fun _ => rfl).unary
  exact ⟨(hunary.binary _ 0).whole, fun _ _ => hunary.binary _ _, fun _ => hunary, fun _ => h⟩

theorem Readable.ofUnary (h : ReadsUnary e.pieces e) (hlt : e.precedence < Precedence.member) :
    Readable e :=
  ⟨(h.binary _ 0).whole, fun _ _ => h.binary _ _, fun _ => h,
    fun hle => absurd hlt (Nat.not_lt.2 hle)⟩

theorem Readable.ofBinary (h : ∀ {least : Nat}, least ≤ e.precedence →
    ReadsBinary least e.limit e.pieces e) (hle : Precedence.nullish ≤ e.precedence)
    (hlt : e.precedence < Precedence.unary) : Readable e :=
  ⟨(h hle).whole, fun hle _ => h hle, fun hle => absurd hlt (Nat.not_lt.2 hle),
    fun hle => absurd (Nat.lt_trans hlt (by decide)) (Nat.not_lt.2 hle)⟩

theorem Readable.ofWhole (h : ReadsWhole e.pieces e) (hlt : e.precedence < Precedence.nullish) :
    Readable e :=
  ⟨h, fun _ hle => absurd hlt (Nat.not_lt.2 hle),
    fun hle => absurd (Nat.lt_trans hlt (by decide)) (Nat.not_lt.2 hle),
    fun hle => absurd (Nat.lt_trans hlt (by decide)) (Nat.not_lt.2 hle)⟩

namespace Readable

/-- An operand that starts a chain, with parentheses or without. -/
theorem chainOperand (h : Readable e) {wrap : Bool} {calls : Bool}
    (hwrap : wrap = false →
      Precedence.member ≤ e.precedence ∧ (e.startsWithCall = true → calls = true)) :
    ReadsChain calls (parenthesizedIf wrap e.pieces) e := by
  cases wrap with
  | true => exact h.whole.group (settled_pieces e) calls
  | false => exact h.chain (hwrap rfl).1 calls (hwrap rfl).2

theorem unaryOperand (h : Readable e) {level : Nat} (hlevel : Precedence.unary ≤ level) :
    ReadsUnary (parenthesizedIf (e.precedence < level) e.pieces) e := by
  refine operand_cases (motive := fun ps => ReadsUnary ps e) ?_ fun hle => ?_
  · exact (h.whole.group (settled_pieces e) true).unary
  · exact h.unary (Nat.le_trans hlevel hle)

theorem binaryOperand (h : Readable e) {least limit level : Nat} (hleast : least ≤ level)
    (hlevel : Precedence.nullish ≤ level) (hlimit : level ≤ e.precedence → limit ≤ e.limit) :
    ReadsBinary least limit (parenthesizedIf (e.precedence < level) e.pieces) e := by
  refine operand_cases (motive := fun ps => ReadsBinary least limit ps e) ?_ fun hle => ?_
  · exact (h.whole.group (settled_pieces e) true).unary.binary _ _
  · exact (h.binary (Nat.le_trans hleast hle) (Nat.le_trans hlevel hle)).mono (hlimit hle)

theorem wholeOperand (h : Readable e) :
    ReadsWhole (parenthesizedIf (e.precedence < Precedence.assignment) e.pieces) e := by
  rw [decide_eq_false (Nat.not_lt.2 e.assignment_le_precedence)]
  exact h.whole

end Readable

mutual

/-- **Parenthesisation is right.** The layout of a written expression is read back. -/
theorem readable : ∀ {e : Expression}, e.All Expression.Written → Readable e
  | .number _ raw, _ => .ofChain fun calls _ => by
    rw [Expression.pieces]
    exact readsChain_token (.number · raw) rfl (fun h => by cases h) (fun ht hk => .number ht hk)
      (fun _ => by rfl) calls
  | .string _ value quote raw, _ => .ofChain fun calls _ => by
    rw [Expression.pieces]
    exact readsChain_token (.string · value quote (some (raw.getD (Quoted.escape quote value)))) rfl
      (fun h => by cases h) (fun ht hk => .string ht hk) (fun _ => by rfl) calls
  | .boolean _ value, _ => .ofChain fun calls _ => by
    rw [Expression.pieces]
    exact readsChain_token (.boolean · value) rfl (by cases value <;> decide)
      (fun ht hk => .boolean ht hk) (fun _ => by rfl) calls
  | .null _, _ => .ofChain fun calls _ => by
    rw [Expression.pieces]
    exact readsChain_token (.null ·) rfl (by decide) (fun ht hk => .null ht hk) (fun _ => by rfl)
      calls
  | .identifier _ name, _ => .ofChain fun calls _ => by
    rw [Expression.pieces]
    exact readsChain_token (.identifier · name) rfl (fun h => by cases h)
      (fun ht hk => .identifier ht hk) (fun _ => by rfl) calls
  | .binary n op left right, h => by
    have hleft := readable h.2.1
    have hright := readable h.2.2
    cases hop : op.isAssignment with
    | true =>
      refine .ofWhole ?_ (BinaryOp.precedence_lt_of_isAssignment hop)
      rw [Expression.pieces, BinaryOp.operandLevels_of_isAssignment hop]
      exact readsWhole_assignment hop
        (hleft.binaryOperand (by decide) (by decide) fun _ => Nat.zero_le _)
        (settled_parenthesizedIf (settled_pieces left) _) (h.1 hop) hright.wholeOperand
    | false =>
      have hlevels := BinaryOp.levels_of_not_isAssignment hop
      refine .ofBinary (fun hleast => ?_) hlevels.1 op.precedence_lt_unary
      rw [Expression.pieces]
      refine readsBinary_binary hop hleast (hleft.binaryOperand (Nat.le_trans hleast hlevels.2.1)
        (Nat.le_trans hlevels.1 hlevels.2.1) fun hle => ?_)
        (settled_parenthesizedIf (settled_pieces left) _)
        (hright.binaryOperand hlevels.2.2.1 hlevels.2.2.2 fun hle => ?_)
      · exact Expression.succ_precedence_le_limit hop hle
      · exact Nat.le_trans hlevels.2.2.1 (Nat.le_trans hle (right.precedence_le_limit))
  | .unary n op operand, h => by
    have hoperand := readable h.2
    have hlt : (Expression.unary n op operand).precedence < Precedence.member := by
      simp only [Expression.precedence]
      split <;> decide
    refine .ofUnary ?_ hlt
    rw [Expression.pieces]
    split
    · rename_i hop
      refine readsUnary_trailing (hoperand.chainOperand fun hw => ⟨?_, fun _ => rfl⟩)
        (settled_parenthesizedIf (settled_pieces operand) _) hop
      exact Expression.member_le_precedence (h.1 hop) (Nat.le_of_not_lt (of_decide_eq_false hw))
    · rename_i hop
      exact readsUnary_leading (hoperand.unaryOperand (Nat.le_refl _)) _ (Bool.not_eq_true _ ▸ hop)
  | .call n callee arguments, h => .ofChain fun calls hcalls => by
    have hcallee := readable h.2.1
    rw [Expression.pieces, hcalls rfl]
    exact readsChain_call (hcallee.chainOperand fun hw =>
      ⟨Nat.le_of_not_lt (of_decide_eq_false hw), fun _ => rfl⟩)
      (settled_parenthesizedIf (settled_pieces callee) _) (readsElements h.2.2)
  | .construct n callee arguments, h => .ofChain fun calls _ => by
    have hcallee := readable h.2.1
    rw [Expression.pieces]
    refine readsChain_construct (hcallee.chainOperand fun hw => ?_)
      (settled_parenthesizedIf (settled_pieces callee) _) (readsElements h.2.2) calls
    rw [Bool.or_eq_false_iff, decide_eq_false_iff_not, Nat.not_lt] at hw
    exact ⟨hw.2, fun hcall => by rw [hw.1] at hcall; cases hcall⟩
  | .member n object property, h => .ofChain fun calls hcalls => by
    have hobject := readable h.2
    rw [Expression.pieces]
    refine readsChain_member (hobject.chainOperand fun hw => ?_)
      (settled_parenthesizedIf (settled_pieces object) _)
    rw [Bool.or_eq_false_iff, decide_eq_false_iff_not, Nat.not_lt] at hw
    exact ⟨hw.2, hcalls⟩
  | .index n object position, h => .ofChain fun calls hcalls => by
    have hobject := readable h.2.1
    rw [Expression.pieces]
    exact readsChain_index (hobject.chainOperand fun hw =>
      ⟨Nat.le_of_not_lt (of_decide_eq_false hw), hcalls⟩)
      (settled_parenthesizedIf (settled_pieces object) _) (readable h.2.2).whole
  | .conditional n condition yes no, h => by
    have hcondition := readable h.2.1
    refine .ofWhole ?_ (by simp only [Expression.precedence]; decide)
    rw [Expression.pieces]
    exact readsWhole_conditional
      (hcondition.binaryOperand (Nat.le_refl _) (Nat.le_refl _) fun _ => Nat.zero_le _)
      (settled_parenthesizedIf (settled_pieces condition) _) (readable h.2.2.1).wholeOperand
      (settled_parenthesizedIf (settled_pieces yes) _) (readable h.2.2.2).wholeOperand
  | .array n elements, h => .ofChain fun calls _ => by
    rw [Expression.pieces]
    exact readsChain_array (readsElements h.2) calls

theorem readsElements : ∀ {es : List Expression}, Expression.AllOf Expression.Written es →
    ReadsElements es
  | [], _ => by
    intro close s rest _ hs
    obtain ⟨t, ts, ht, hk, -, hrest⟩ := exists_of_marks hs
    exact ⟨[], s.past t ts, .close ht hk, hrest, rfl⟩
  | [e], h => by
    intro close s rest hclose hs
    obtain ⟨e', s₁, hread, hs₁, hcopy⟩ := (readable h.1).wholeOperand hs
      (notAt_cons.2 (by rcases hclose with rfl | rfl <;> rfl))
    obtain ⟨t, ts, ht, hk, -, hrest⟩ := exists_of_marks hs₁
    refine ⟨[e'], s₁.past t ts, .last (kind?_ne_close hclose hread) hread ?_ ht hk, hrest,
      .cons hcopy rfl⟩
    rw [kind?_of_marks hs₁]
    rcases hclose with rfl | rfl <;> decide
  | e :: e' :: es, h => by
    intro close s rest hclose hs
    have hmarks : Piece.marks false (separated (Expression.listPieces (e :: e' :: es))) =
        Piece.marks false (parenthesizedIf (e.precedence < Precedence.assignment) e.pieces) ++
          (.symbol .comma, false) ::
            Piece.marks false (separated (Expression.listPieces (e' :: es))) := by
      show Piece.marks false (parenthesizedIf _ e.pieces ++ comma ++ separated _) = _
      rw [List.append_assoc,
        Piece.marks_append_of_settled (settled_parenthesizedIf (settled_pieces e) _)]
      rfl
    rw [hmarks, List.append_assoc] at hs
    obtain ⟨f, s₁, hread, hs₁, hcopy⟩ := (readable h.1).wholeOperand hs (notAt_cons.2 rfl)
    obtain ⟨t, ts, ht, hk, -, hpast⟩ := exists_of_marks hs₁
    obtain ⟨fs, s₂, hreads, hs₂, hcopies⟩ := readsElements h.2 hclose hpast
    exact ⟨f :: fs, s₂, .more (kind?_ne_close hclose hread) hread ht hk hreads, hs₂,
      .cons hcopy hcopies⟩

end

end Parse

/-! ## The text of an expression -/

/-- On its own, the spelling of the token is split into that token and the end of file. -/
def TokenKind.IsLexeme (k : TokenKind) : Prop :=
  ∃ file, (tokenize k.text file).map (List.map Token.kind) = .ok [k, .endOfFile]

theorem TokenKind.IsLexeme.spelt {k : TokenKind} (h : k.IsLexeme) (htrivia : k.trivia? = none)
    (hend : k ≠ .endOfFile) : k.Spelt := by
  obtain ⟨file, h⟩ := h
  cases hts : tokenize k.text file with
  | error e => rw [hts] at h; cases h
  | ok ts =>
    rw [hts] at h
    have hmap : ts.map Token.kind = [k, .endOfFile] := Except.ok.inj h
    obtain ⟨t, ht, rfl⟩ := List.mem_map.1 (hmap ▸ List.mem_cons_self : k ∈ ts.map Token.kind)
    exact spelt_of_tokens hts t ht htrivia hend

namespace Expression

/-- What one node of a tree has to keep to: numbers, names and properties are spelt as one token, a
string has no spelling or the one of a token with its value, only what can be assigned to is
assigned to, and no operator stands behind one that stands behind its operand itself. -/
def WellSpelt : Expression → Prop
  | .number _ raw => (TokenKind.number raw).IsLexeme
  | .string _ value quote (some raw) => (TokenKind.string value quote raw).IsLexeme
  | .identifier _ name => (TokenKind.identifier name).IsLexeme
  | .member _ _ property => (TokenKind.identifier property).IsLexeme
  | .binary _ op target _ => op.isAssignment = true → target.isAssignable = true
  | .unary n op operand => (Expression.unary n op operand).TrailsOnce
  | _ => True

theorem WellSpelt.written : ∀ {e : Expression}, e.WellSpelt → e.Written
  | .number .., h => h.spelt rfl (by intro h; cases h)
  | .string _ _ _ (some _), h => h.spelt rfl (by intro h; cases h)
  | .string _ value quote none, _ => TokenKind.spelt_escape value quote
  | .identifier .., h => h.spelt rfl (by intro h; cases h)
  | .member .., h => h.spelt rfl (by intro h; cases h)
  | .binary .., h => h
  | .unary .., h => TrailsOnce.written h
  | .boolean .., _ | .null .., _ | .call .., _ | .construct .., _ | .index .., _
  | .conditional .., _ | .array .., _ => trivial

end Expression

/-- **Every expression tree is read back from its text.** Whatever its shape, the text is split into
tokens, and the reader returns the tree up to ids, spans and the spelling of strings, with only the
end of file left. -/
theorem expression_render {e : Expression} (h : e.All Expression.WellSpelt) (file : String) :
    ∃ ts, tokenize e.render file = .ok ts ∧
      ∃ e' s', Parse.expression (.ofTokens ts file) = .ok e' s' ∧
        e'.erase.unspelled = e.erase.unspelled ∧ s'.tokens.map (·.kind) = [.endOfFile] := by
  have hwritten := h.mono fun _ => Expression.WellSpelt.written
  obtain ⟨ts, broken, hts, hmarks⟩ :=
    Piece.exists_tokenize_render (spaced_pieces hwritten (stops_nil _)) file
  obtain ⟨e', s', hread, hs', hcopy⟩ :=
    (Parse.readable hwritten).whole hmarks (notAt_cons.2 rfl)
  exact ⟨ts, hts, e', s', Parse.expression_eq_ok.2 hread, hcopy.unspelled,
    ParserState.kinds_of_marks hs'⟩

/-- A tree that was not read from a text and needs most of the rules for parentheses and blanks. -/
def Expression.knot : Expression :=
  .conditional .blank
    (.binary .blank .exp
      (.construct .blank (.member .blank (.call .blank (.identifier .blank "f") []) "g")
        [.unary .blank .minus (.unary .blank .minus (.identifier .blank "x"))])
      (.binary .blank .assign (.identifier .blank "y") (.string .blank "it's" .single none)))
    (.unary .blank .postIncrement (.member .blank (.number .blank "1.5") "k"))
    (.array .blank [.binary .blank .nullish (.identifier .blank "a")
      (.binary .blank .logicalOr (.identifier .blank "b") (.identifier .blank "c"))])

example : Expression.knot.render =
    "new (f().g)(- -x) ** (y = 'it\\'s') ? (1.5).k++ : [a ?? (b || c)]" := by
  decide +kernel

theorem expression_render_knot :
    Expression.knot.All Expression.WellSpelt ∧
    ∃ ts, tokenize Expression.knot.render "knot.ts" = .ok ts ∧
      ∃ e' s', Parse.expression (.ofTokens ts "knot.ts") = .ok e' s' ∧
        e'.erase.unspelled = Expression.knot.erase.unspelled ∧
        s'.tokens.map (·.kind) = [.endOfFile] := by
  have h : Expression.knot.All Expression.WellSpelt :=
    ⟨trivial,
      ⟨fun h => (by cases h),
        ⟨trivial, ⟨⟨"", rfl⟩, trivial, ⟨"", rfl⟩, trivial⟩,
          ⟨fun h => (by cases h.1), fun h => (by cases h.1), ⟨"", rfl⟩⟩, trivial⟩,
        fun _ => rfl, ⟨"", rfl⟩, trivial⟩,
      ⟨fun h => (by cases h.2), ⟨"", rfl⟩, ⟨"", rfl⟩⟩,
      trivial, ⟨fun h => (by cases h), ⟨"", rfl⟩, fun h => (by cases h), ⟨"", rfl⟩, ⟨"", rfl⟩⟩,
      trivial⟩
  exact ⟨h, expression_render h "knot.ts"⟩

end DecimalLift
