import DecimalLift.Proofs.RoundTrip.Source

/-!
# Where a reading of a layout ends

`readable` says that the layout of a written expression can be read. This file goes the other way:
given the layout of any expression and a reading that starts in front of it, it says where the
reading ends. It ends at the seam, right behind the layout, or it is jammed: it ends in front of an
operator that would have to stand behind another one of its kind, and nothing that may follow an
expression takes that operator. A seam is reached only if the expression has no such pair.

* `Jammed`, `Ended` — the two ends of a reading.
* `ChainEnds`, `UnaryEnds`, `BinaryEnds`, `WholeEnds` — how readings of a layout end, from the
  tightest level to the loosest.
* `Seamed`, `seamed` — the readings of every expression end like this at every level that its
  precedence allows.
-/

set_option autoImplicit false

namespace DecimalLift

open Piece (Settled symbol keyword comma separated parenthesized parenthesizedIf)

/-- The first of several items, and the comma behind it. -/
theorem Piece.marks_separated_cons {item : List Piece} (h : Settled item) (b : Bool)
    (next : List Piece) (items : List (List Piece)) :
    marks b (separated (item :: next :: items)) =
      marks b item ++ (.symbol .comma, false) :: marks false (separated (next :: items)) := by
  show marks b (item ++ comma ++ separated (next :: items)) = _
  rw [List.append_assoc, marks_append_of_settled h]
  rfl

/-! ## First tokens -/

/-- The layout starts with a token of certain kinds. -/
def Piece.Opens (starts : TokenKind → Bool) (ps : List Piece) : Prop :=
  ∃ k qs, ps = .token k :: qs ∧ k.trivia? = none ∧ starts k = true

namespace Piece.Opens

variable {starts starts' : TokenKind → Bool} {ps : List Piece}

theorem append (h : Opens starts ps) (qs : List Piece) : Opens starts (ps ++ qs) := by
  obtain ⟨k, rs, rfl, htrivia, hk⟩ := h
  exact ⟨k, rs ++ qs, rfl, htrivia, hk⟩

theorem mono (h : Opens starts ps) (hle : ∀ k, starts k = true → starts' k = true) :
    Opens starts' ps := by
  obtain ⟨k, rs, rfl, htrivia, hk⟩ := h
  exact ⟨k, rs, rfl, htrivia, hle k hk⟩

theorem kind? (h : Opens starts ps) {s : ParserState} {b : Bool} {rest : List Mark}
    (hs : s.marks = marks b ps ++ rest) : ∃ k, s.kind? = some k ∧ starts k = true := by
  obtain ⟨k, rs, rfl, htrivia, hk⟩ := h
  rw [marks_token htrivia, List.cons_append] at hs
  exact ⟨k, ParserState.kind?_of_marks hs, hk⟩

end Piece.Opens

theorem TokenKind.startsExpression_of_startsChain (k : TokenKind) (h : k.startsChain = true) :
    k.startsExpression = true := by
  simp [startsExpression, h]

theorem Expression.precedence_of_isTrailing {e : Expression} (h : e.isTrailing = true) :
    e.precedence = Precedence.trailing := by
  cases e with
  | unary n op operand => exact if_pos h
  | _ => cases h

namespace Parse

open ParserState (kind?_of_tokens kind?_of_marks)

section

variable {s s' : ParserState} {t : Token} {ts : List Token} {k : TokenKind} {b : Bool}
  {ms : List Mark}

/-- The token taken is the one that the first mark tells of. -/
theorem head_of_marks (hs : s.marks = (k, b) :: ms) (ht : s.tokens = t :: ts) :
    t.kind = k ∧ t.afterBreak = b ∧ (s.past t ts).marks = ms := by
  obtain ⟨t', ts', ht', hk, hb, hms⟩ := ParserState.exists_of_marks hs
  rw [ht] at ht'
  cases ht'
  exact ⟨hk, hb, hms⟩

/-! ## Jams -/

/-- An operator that stands behind its operand comes next, on the same line. -/
def Jammed (s : ParserState) : Prop := (trailingOp? s).isSome = true

theorem Jammed.head (h : Jammed s) (ht : s.tokens = t :: ts) :
    t.afterBreak = false ∧ (t.kind = .symbol .plusPlus ∨ t.kind = .symbol .minusMinus) := by
  unfold Jammed trailingOp? at h
  rw [ht, List.head?_cons, Option.bind_some] at h
  cases hbreak : t.afterBreak with
  | true => simp [hbreak] at h
  | false =>
    simp only [hbreak] at h
    refine ⟨rfl, ?_⟩
    cases hk : t.kind with
    | symbol y =>
      rw [hk] at h
      cases y <;> first | exact Or.inl rfl | exact Or.inr rfl | cases h
    | _ => rw [hk] at h; cases h

theorem Jammed.grown (h : Jammed s) : Jammed s.grown := h

theorem Jammed.exists_head (h : Jammed s) : ∃ t ts, s.tokens = t :: ts := by
  obtain ⟨op, hop⟩ := Option.isSome_iff_exists.1 h
  exact exists_of_trailingOp? hop

theorem Jammed.kind? (h : Jammed s) :
    s.kind? = some (.symbol .plusPlus) ∨ s.kind? = some (.symbol .minusMinus) := by
  obtain ⟨t, ts, ht⟩ := h.exists_head
  rw [kind?_of_tokens ht]
  exact (h.head ht).2.imp (congrArg some) (congrArg some)

theorem not_jammed {k : TokenKind} (hk : s.kind? = some k) (hplus : k ≠ .symbol .plusPlus)
    (hminus : k ≠ .symbol .minusMinus) : ¬Jammed s := by
  intro h
  rcases h.kind? with h | h <;> rw [hk] at h <;> cases h <;> contradiction

theorem jammed_of_marks {op : UnaryOp} (hop : op.isTrailing = true)
    (hs : s.marks = (op.token, false) :: ms) : Jammed s := by
  obtain ⟨t, ts, ht, hk, hbreak, -⟩ := ParserState.exists_of_marks hs
  simp only [Jammed, trailingOp?, ht, List.head?_cons, Option.bind_some, hbreak, hk]
  rcases UnaryOp.eq_of_isTrailing hop with rfl | rfl <;> rfl

/-- A loop over operators stops in front of a looser one. -/
theorem climb_stops {least : Nat} {e f : Expression}
    (hstop : ∀ op ∈ s.kind?.bind BinaryOp.ofOperand?, op.precedence < least)
    (h : Reads (.climb least e) s f s') : s' = s := by
  cases h with
  | climb_stop => rfl
  | climb_step ht hop hleast =>
    exact absurd (hstop _ (by rw [kind?_of_tokens ht]; exact hop)) (Nat.not_lt.2 hleast)

theorem Jammed.climb {least : Nat} {e f : Expression} (h : Jammed s)
    (hclimb : Reads (.climb least e) s f s') : Jammed s' := by
  have hstop : s' = s := by
    refine climb_stops ?_ hclimb
    rcases h.kind? with hk | hk <;> rw [hk] <;> exact fun _ hop => nomatch hop
  rw [hstop]
  exact h

theorem suffixes_stops {calls : Bool} {e f : Expression} (hends : endsChain calls s)
    (h : Reads (.suffixes calls e) s f s') : s' = s := by
  cases h with
  | suffixes_stop => rfl
  | member ht hdot => exact absurd (by rw [kind?_of_tokens ht, hdot]) hends.1
  | index ht hopen => exact absurd (by rw [kind?_of_tokens ht, hopen]) hends.2.1
  | arguments ht hopen => exact absurd (by rw [kind?_of_tokens ht, hopen]) (hends.2.2 rfl)

end

/-! ## Levels -/

/-- A reading of a layout is jammed, or it is at the seam with what follows; the latter only
`once`. -/
def Ended (once : Prop) (rest : List Mark) (s : ParserState) : Prop :=
  Jammed s ∨ (once ∧ s.marks = rest)

/-- A chain that starts with the layout goes on behind it. -/
structure ChainEnds (calls : Bool) (ps : List Piece) (once : Prop) : Prop where
  opens : Piece.Opens TokenKind.startsChain ps
  ends : ∀ ⦃s : ParserState⦄ ⦃b : Bool⦄ ⦃rest : List Mark⦄, s.marks = Piece.marks b ps ++ rest →
    ∀ {first f : Expression} {s₁ s' : ParserState}, Reads .head s first s₁ →
      Reads (.suffixes calls first) s₁ f s' →
      once ∧ ∃ e s₂, Reads (.suffixes calls e) s₂ f s' ∧ s₂.marks = rest

/-- An operand that starts with the layout ends behind it. A layout that `trails` ends with an
operator behind its operand, and no more of it is read whatever follows. -/
structure UnaryEnds (trails : Bool) (ps : List Piece) (once : Prop) : Prop where
  opens : Piece.Opens TokenKind.startsExpression ps
  ends : ∀ ⦃s : ParserState⦄ ⦃b : Bool⦄ ⦃rest : List Mark⦄, s.marks = Piece.marks b ps ++ rest →
    (trails = false → NotAt TokenKind.extendsOperand rest) →
    ∀ {f : Expression} {s' : ParserState}, Reads .unary s f s' → Ended once rest s'

/-- A sequence of operators that starts with the layout goes on behind it, if the next operator is
looser than `limit`. -/
structure BinaryEnds (least limit : Nat) (ps : List Piece) (once : Prop) : Prop where
  opens : Piece.Opens TokenKind.startsExpression ps
  ends : ∀ ⦃s : ParserState⦄ ⦃b : Bool⦄ ⦃rest : List Mark⦄, s.marks = Piece.marks b ps ++ rest →
    NotAt TokenKind.extendsOperand rest → Below limit rest →
    ∀ {f : Expression} {s' : ParserState}, Reads (.binary least) s f s' →
      Jammed s' ∨ (once ∧ ∃ e s₁, Reads (.climb least e) s₁ f s' ∧ s₁.marks = rest)

/-- An expression that starts with the layout ends behind it. -/
structure WholeEnds (ps : List Piece) (once : Prop) : Prop where
  opens : Piece.Opens TokenKind.startsExpression ps
  ends : ∀ ⦃s : ParserState⦄ ⦃b : Bool⦄ ⦃rest : List Mark⦄, s.marks = Piece.marks b ps ++ rest →
    NotAt TokenKind.extendsExpression rest →
    ∀ {f : Expression} {s' : ParserState}, Reads .assignment s f s' → Ended once rest s'

variable {ps : List Piece} {once once' : Prop} {s s' : ParserState} {b : Bool} {rest : List Mark}
  {f : Expression}

theorem ChainEnds.imp {calls : Bool} (h : ChainEnds calls ps once) (himp : once → once') :
    ChainEnds calls ps once' :=
  ⟨h.opens, fun _ _ _ hs _ _ _ _ hhead hsuffixes => (h.ends hs hhead hsuffixes).imp_left himp⟩

theorem UnaryEnds.imp {trails : Bool} (h : UnaryEnds trails ps once) (himp : once → once') :
    UnaryEnds trails ps once' :=
  ⟨h.opens, fun _ _ _ hs hrest _ _ hread => (h.ends hs hrest hread).imp_right (.imp_left himp)⟩

theorem BinaryEnds.imp {least limit : Nat} (h : BinaryEnds least limit ps once)
    (himp : once → once') : BinaryEnds least limit ps once' :=
  ⟨h.opens, fun _ _ _ hs hrest hbelow _ _ hread =>
    (h.ends hs hrest hbelow hread).imp_right (.imp_left himp)⟩

theorem WholeEnds.imp (h : WholeEnds ps once) (himp : once → once') : WholeEnds ps once' :=
  ⟨h.opens, fun _ _ _ hs hrest _ _ hread => (h.ends hs hrest hread).imp_right (.imp_left himp)⟩

/-- What comes next shows that a reading is not jammed. -/
theorem Ended.seam {t : Token} {ts : List Token} {k : TokenKind} (h : Ended once rest s)
    (ht : s.tokens = t :: ts) (hk : t.kind = k)
    (hne : k ≠ .symbol .plusPlus ∧ k ≠ .symbol .minusMinus) : once ∧ s.marks = rest :=
  h.resolve_left (not_jammed (by rw [kind?_of_tokens ht, hk]) hne.1 hne.2)

/-- An operand that starts with the layout of a chain is the chain, with or without an operator
behind it. -/
theorem ChainEnds.operand (h : ChainEnds true ps once) (hs : s.marks = Piece.marks b ps ++ rest)
    (hread : Reads .unary s f s') :
    once ∧ ∃ e g s₂ s₃, Reads (.suffixes true e) s₂ g s₃ ∧ s₂.marks = rest ∧
      ((trailingOp? s₃ = none ∧ s' = s₃) ∨
        (Jammed s₃ ∧ ∃ t ts, s₃.tokens = t :: ts ∧ s' = (s₃.past t ts).grown)) := by
  have hcall : ∀ {g : Expression} {s₃ : ParserState}, Reads .call s g s₃ →
      once ∧ ∃ e s₂, Reads (.suffixes true e) s₂ g s₃ ∧ s₂.marks = rest := by
    intro g s₃ hcall
    cases hcall with
    | call hhead hsuffixes => exact h.ends hs hhead hsuffixes
  cases hread with
  | unary ht hop =>
    obtain ⟨k, hk, hstart⟩ := h.opens.kind? hs
    rw [kind?_of_tokens ht] at hk
    cases hk
    rw [ofLeading?_of_startsChain hstart] at hop
    cases hop
  | unary_plain _ hread =>
    cases hread with
    | trailing_plain hread hop =>
      obtain ⟨honce, e, s₂, hgo, hs₂⟩ := hcall hread
      exact ⟨honce, e, _, s₂, s', hgo, hs₂, Or.inl ⟨hop, rfl⟩⟩
    | trailing hread ht hop =>
      obtain ⟨honce, e, s₂, hgo, hs₂⟩ := hcall hread
      exact ⟨honce, e, _, s₂, _, hgo, hs₂,
        Or.inr ⟨Option.isSome_iff_exists.2 ⟨_, hop⟩, _, _, ht, rfl⟩⟩

theorem ChainEnds.unary (h : ChainEnds true ps once) : UnaryEnds false ps once := by
  refine ⟨h.opens.mono TokenKind.startsExpression_of_startsChain,
    fun s b rest hs hrest f s' hread => ?_⟩
  obtain ⟨honce, e, g, s₂, s₃, hgo, rfl, hend⟩ := h.operand hs hread
  replace hrest := hrest rfl
  obtain rfl := suffixes_stops (endsChain_of_notAt hrest true) hgo
  rcases hend with ⟨-, rfl⟩ | ⟨hjam, -⟩
  · exact Or.inr ⟨honce, rfl⟩
  · rw [Jammed, trailingOp?_of_notAt hrest] at hjam
    cases hjam

theorem UnaryEnds.binary {trails : Bool} (h : UnaryEnds trails ps once) (least limit : Nat) :
    BinaryEnds least limit ps once := by
  refine ⟨h.opens, fun s b rest hs hrest _ f s' hread => ?_⟩
  cases hread with
  | binary hfirst hclimb =>
    rcases h.ends hs (fun _ => hrest) hfirst with hjam | ⟨honce, hs₁⟩
    · exact Or.inl (hjam.climb hclimb)
    · exact Or.inr ⟨honce, _, _, hclimb, hs₁⟩

/-- Where no operator follows, the operands are all that is read. -/
theorem BinaryEnds.run {least limit : Nat} (h : BinaryEnds least limit ps once)
    (hs : s.marks = Piece.marks b ps ++ rest) (hoperand : NotAt TokenKind.extendsOperand rest)
    (hop : NotAt (fun k => (BinaryOp.ofOperand? k).isSome) rest)
    (hread : Reads (.binary least) s f s') : Ended once rest s' := by
  rcases h.ends hs hoperand (below_of_notAt hop limit) hread with hjam | ⟨honce, e, s₁, hclimb, rfl⟩
  · exact Or.inl hjam
  · obtain rfl := climb_stops (below_marks.1 (below_of_notAt hop least)) hclimb
    exact Or.inr ⟨honce, rfl⟩

/-- Where no question mark follows either, there is no choice to read. -/
theorem BinaryEnds.conditional {limit : Nat} (h : BinaryEnds Precedence.nullish limit ps once)
    (hs : s.marks = Piece.marks b ps ++ rest) (hoperand : NotAt TokenKind.extendsOperand rest)
    (hop : NotAt (fun k => (BinaryOp.ofOperand? k).isSome) rest)
    (hquestion : NotAt (· == .symbol .question) rest) (hread : Reads .conditional s f s') :
    Ended once rest s' := by
  cases hread with
  | conditional_plain hread _ => exact h.run hs hoperand hop hread
  | conditional hread ht hq =>
    obtain ⟨-, rfl⟩ := (h.run hs hoperand hop hread).seam ht hq (by decide)
    exact absurd (by rw [kind?_of_tokens ht, hq]) (kind?_ne_of_notAt hquestion rfl)

/-- Where no assignment follows, there is none to read. -/
theorem ended_of_conditional (hread : Reads .assignment s f s')
    (h : ∀ {g : Expression} {s₁ : ParserState}, Reads .conditional s g s₁ → Ended once rest s₁)
    (hrest : NotAt (fun k => (BinaryOp.ofAssignment? k).isSome) rest) : Ended once rest s' := by
  cases hread with
  | assignment_plain hread _ => exact h hread
  | assignment hread ht hop =>
    rcases h hread with hjam | ⟨-, rfl⟩
    · rcases (hjam.head ht).2 with hk | hk <;> rw [hk] at hop <;> cases hop
    · have hnone := notAt_marks.1 hrest _ (kind?_of_tokens ht)
      rw [hop] at hnone
      cases hnone

theorem BinaryEnds.whole {limit : Nat} (h : BinaryEnds Precedence.nullish limit ps once) :
    WholeEnds ps once := by
  refine ⟨h.opens, fun s b rest hs hrest f s' hread => ?_⟩
  have hparts := fun (k : TokenKind) (hk : k.extendsExpression = false) =>
    TokenKind.extendsExpression_eq_false.1 hk
  refine ended_of_conditional hread (h.conditional hs (hrest.mono fun k hk => (hparts k hk).1)
    (hrest.mono fun k hk => ?_) (hrest.mono fun k hk => ?_)) (hrest.mono fun k hk => ?_)
  · simp [(hparts k hk).2.1]
  · simpa using (hparts k hk).2.2.2
  · simp [(hparts k hk).2.2.1]

/-! ## Chains -/

/-- What stands between parentheses has to be read up to the closing one. -/
theorem WholeEnds.group (h : WholeEnds ps once) (hps : Settled ps) (calls : Bool) :
    ChainEnds calls (parenthesized ps) once := by
  refine ⟨⟨_, _, rfl, rfl, rfl⟩, fun s b rest hs first f s₁ s' hhead hsuffixes => ?_⟩
  rw [Piece.marks_parenthesized hps.unbroken, List.cons_append, List.append_assoc] at hs
  cases hhead with
  | head_new hk => rw [kind?_of_marks hs] at hk; cases hk
  | head_primary _ hprimary =>
    cases hprimary with
    | group ht _ hread hu hclose =>
      obtain ⟨honce, hs₂⟩ := (h.ends (head_of_marks hs ht).2.2 (notAt_cons.2 rfl) hread).seam hu
        hclose (by decide)
      exact ⟨honce, _, _, hsuffixes, (head_of_marks hs₂ hu).2.2⟩
    | number ht hk | string ht hk | null ht hk | identifier ht hk | array ht hk =>
      rw [(head_of_marks hs ht).1] at hk
      cases hk
    | boolean ht hk =>
      rename_i value
      rw [(head_of_marks hs ht).1] at hk
      cases value <;> cases hk

/-- A single token that is an expression of its own. -/
theorem chainEnds_token {k : TokenKind} (htrivia : k.trivia? = none) (hstart : k.startsChain = true)
    (hnew : k ≠ .keyword .newWord) (hsymbol : ∀ y, k ≠ .symbol y) (calls : Bool) :
    ChainEnds calls [.token k] True := by
  refine ⟨⟨k, [], rfl, htrivia, hstart⟩, fun s b rest hs first f s₁ s' hhead hsuffixes => ?_⟩
  rw [Piece.marks_token htrivia, Piece.marks_nil] at hs
  cases hhead with
  | head_new hk =>
    rw [kind?_of_marks hs] at hk
    exact absurd (Option.some.inj hk) hnew
  | head_primary _ hprimary =>
    cases hprimary with
    | number ht | string ht | boolean ht | null ht | identifier ht =>
      exact ⟨trivial, _, _, hsuffixes, (head_of_marks hs ht).2.2⟩
    | group ht hk | array ht hk =>
      exact absurd ((head_of_marks hs ht).1.symm.trans hk) (hsymbol _)

/-- Expressions between commas have to be read up to the symbol that closes them. -/
def ElementsEnd (es : List Expression) (once : Prop) : Prop :=
  ∀ ⦃close : Symbol⦄ ⦃s : ParserState⦄ ⦃rest : List Mark⦄,
    close = .rightParen ∨ close = .rightBracket →
    s.marks = Piece.marks false (separated (Expression.listPieces es)) ++
      (.symbol close, false) :: rest →
    ∀ {es' : List Expression} {s' : ParserState}, ReadsAll close s es' s' → once ∧ s'.marks = rest

theorem chainEnds_call {arguments : List Expression} (h : ChainEnds true ps once) (hps : Settled ps)
    (hargs : ElementsEnd arguments once') :
    ChainEnds true (ps ++ parenthesized (separated (Expression.listPieces arguments)))
      (once ∧ once') := by
  refine ⟨h.opens.append _, fun s b rest hs first f s₁ s' hhead hsuffixes => ?_⟩
  rw [marks_arguments arguments hps] at hs
  obtain ⟨honce, e, s₂, hgo, hs₂⟩ := h.ends hs hhead hsuffixes
  cases hgo with
  | arguments ht _ hread hgo =>
    obtain ⟨honce', hs₃⟩ := hargs (Or.inl rfl) (head_of_marks hs₂ ht).2.2 hread
    exact ⟨⟨honce, honce'⟩, _, _, hgo, hs₃⟩
  | suffixes_stop hends => exact absurd (kind?_of_marks hs₂) (hends.2.2 rfl)
  | member ht hk | index ht hk =>
    rw [(head_of_marks hs₂ ht).1] at hk
    cases hk

theorem chainEnds_construct {arguments : List Expression} (h : ChainEnds false ps once)
    (hps : Settled ps) (hargs : ElementsEnd arguments once') (calls : Bool) :
    ChainEnds calls ([keyword .newWord, .space] ++ ps ++
      parenthesized (separated (Expression.listPieces arguments))) (once ∧ once') := by
  refine ⟨⟨_, _, rfl, rfl, rfl⟩, fun s b rest hs first f s₁ s' hhead hsuffixes => ?_⟩
  simp only [List.cons_append, List.nil_append, Piece.marks_keyword, Piece.marks_space,
    marks_arguments arguments hps] at hs
  -- behind `new`, the chain ends before its arguments
  have hcallee : ∀ {t : Token} {ts : List Token} {head callee : Expression} {s₁ s₂ : ParserState},
      s.tokens = t :: ts → Reads .head (s.past t ts) head s₁ →
      Reads (.suffixes false head) s₁ callee s₂ →
      once ∧ s₂.marks = (.symbol .leftParen, false) ::
        (Piece.marks false (separated (Expression.listPieces arguments)) ++
          (.symbol .rightParen, false) :: rest) := by
    intro t ts head callee s₁ s₂ ht hhead hsuffixes
    obtain ⟨honce, e, s₃, hgo, hs₃⟩ := h.ends (head_of_marks hs ht).2.2 hhead hsuffixes
    have hends : endsChain false s₃ := by
      unfold endsChain
      rw [kind?_of_marks hs₃]
      decide
    obtain rfl := suffixes_stops hends hgo
    exact ⟨honce, hs₃⟩
  cases hhead with
  | head_primary hk => exact absurd (kind?_of_marks hs) hk
  | head_new _ hread =>
    cases hread with
    | construction ht _ hhead hread hu _ hreads =>
      obtain ⟨honce, hs₂⟩ := hcallee ht hhead hread
      obtain ⟨honce', hs₃⟩ := hargs (Or.inl rfl) (head_of_marks hs₂ hu).2.2 hreads
      exact ⟨⟨honce, honce'⟩, _, _, hsuffixes, hs₃⟩
    | construction_bare ht _ hhead hread hparen =>
      exact absurd (kind?_of_marks (hcallee ht hhead hread).2) hparen

theorem chainEnds_member {property : String} {calls : Bool} (h : ChainEnds calls ps once)
    (hps : Settled ps) : ChainEnds calls (ps ++ [symbol .dot, .name property]) once := by
  refine ⟨h.opens.append _, fun s b rest hs first f s₁ s' hhead hsuffixes => ?_⟩
  rw [Piece.marks_append_of_settled hps, List.append_assoc] at hs
  obtain ⟨honce, e, s₂, hgo, hs₂⟩ := h.ends hs hhead hsuffixes
  cases hgo with
  | member ht _ _ hgo =>
    exact ⟨honce, _, _, hgo, (head_of_marks (head_of_marks hs₂ ht).2.2 rfl).2.2⟩
  | suffixes_stop hends => exact absurd (kind?_of_marks hs₂) hends.1
  | index ht hk | arguments ht hk =>
    rw [(head_of_marks hs₂ ht).1] at hk
    cases hk

theorem chainEnds_index {position : Expression} {calls : Bool} (h : ChainEnds calls ps once)
    (hps : Settled ps) (hposition : WholeEnds position.pieces once') :
    ChainEnds calls (ps ++ symbol .leftBracket :: position.pieces ++ [symbol .rightBracket])
      (once ∧ once') := by
  rw [List.append_assoc]
  refine ⟨h.opens.append _, fun s b rest hs first f s₁ s' hhead hsuffixes => ?_⟩
  rw [Piece.marks_append_of_settled hps, List.append_assoc, List.cons_append,
    Piece.marks_symbol, Piece.marks_append_of_settled (settled_pieces position), List.cons_append,
    List.append_assoc] at hs
  obtain ⟨honce, e, s₂, hgo, hs₂⟩ := h.ends hs hhead hsuffixes
  cases hgo with
  | index ht _ hread hu hclose hgo =>
    obtain ⟨honce', hs₃⟩ := (hposition.ends (head_of_marks hs₂ ht).2.2 (notAt_cons.2 rfl)
      hread).seam hu hclose (by decide)
    exact ⟨⟨honce, honce'⟩, _, _, hgo, (head_of_marks hs₃ hu).2.2⟩
  | suffixes_stop hends => exact absurd (kind?_of_marks hs₂) hends.2.1
  | member ht hk | arguments ht hk =>
    rw [(head_of_marks hs₂ ht).1] at hk
    cases hk

theorem chainEnds_array {elements : List Expression} (h : ElementsEnd elements once)
    (calls : Bool) :
    ChainEnds calls (symbol .leftBracket :: separated (Expression.listPieces elements) ++
      [symbol .rightBracket]) once := by
  refine ⟨⟨_, _, rfl, rfl, rfl⟩, fun s b rest hs first f s₁ s' hhead hsuffixes => ?_⟩
  rw [List.cons_append, Piece.marks_symbol,
    Piece.marks_append_of_unbroken (unbroken_separated elements), List.cons_append,
    List.append_assoc] at hs
  cases hhead with
  | head_new hk => rw [kind?_of_marks hs] at hk; cases hk
  | head_primary _ hprimary =>
    cases hprimary with
    | array ht _ hread =>
      obtain ⟨honce, hs₁⟩ := h (Or.inr rfl) (head_of_marks hs ht).2.2 hread
      exact ⟨honce, _, _, hsuffixes, hs₁⟩
    | number ht hk | string ht hk | null ht hk | identifier ht hk | group ht hk =>
      rw [(head_of_marks hs ht).1] at hk
      cases hk
    | boolean ht hk =>
      rename_i value
      rw [(head_of_marks hs ht).1] at hk
      cases value <;> cases hk

/-! ## Operands -/

theorem Ended.grown (h : Ended once rest s) : Ended once rest s.grown := h

theorem unaryEnds_trailing {op : UnaryOp} (h : ChainEnds true ps once) (hps : Settled ps)
    (hop : op.isTrailing = true) : UnaryEnds true (ps ++ [.token op.token]) once := by
  refine ⟨(h.opens.mono TokenKind.startsExpression_of_startsChain).append _,
    fun s b rest hs _ f s' hread => ?_⟩
  have htrivia : op.token.trivia? = none := by cases op <;> rfl
  rw [Piece.marks_append_of_settled hps, Piece.marks_token htrivia, Piece.marks_nil,
    List.append_assoc] at hs
  obtain ⟨honce, e, g, s₂, s₃, hgo, hs₂, hend⟩ := h.operand hs hread
  have hends : endsChain true s₂ := by
    unfold endsChain
    rw [kind?_of_marks hs₂]
    rcases UnaryOp.eq_of_isTrailing hop with rfl | rfl <;> decide
  obtain rfl := suffixes_stops hends hgo
  rcases hend with ⟨hnone, -⟩ | ⟨-, t, ts, ht, rfl⟩
  · have hjam := jammed_of_marks hop hs₂
    rw [Jammed, hnone] at hjam
    cases hjam
  · exact Or.inr ⟨honce, (head_of_marks hs₂ ht).2.2⟩

/-- **An operator behind another one of its kind is a jam**: the first one ends the operand. -/
theorem UnaryEnds.jam {op : UnaryOp} (h : UnaryEnds true ps once) (hps : Settled ps)
    (hop : op.isTrailing = true) : UnaryEnds true (ps ++ [.token op.token]) False := by
  refine ⟨h.opens.append _, fun s b rest hs _ f s' hread => Or.inl ?_⟩
  have htrivia : op.token.trivia? = none := by cases op <;> rfl
  rw [Piece.marks_append_of_settled hps, Piece.marks_token htrivia, Piece.marks_nil,
    List.append_assoc] at hs
  rcases h.ends hs (fun h => nomatch h) hread with hjam | ⟨-, hs'⟩
  · exact hjam
  · exact jammed_of_marks hop hs'

theorem unaryEnds_leading {op : UnaryOp} {trails : Bool} (h : UnaryEnds trails ps once)
    (spaced : Bool) (hop : op.isTrailing = false) :
    UnaryEnds false (.token op.token :: (if spaced then [.space] else []) ++ ps) once := by
  have htrivia : op.token.trivia? = none := by cases op <;> rfl
  have hleading : UnaryOp.ofLeading? op.token = some op := by
    cases op <;> first | rfl | cases hop
  refine ⟨⟨_, _, rfl, htrivia, by simp [TokenKind.startsExpression, hleading]⟩,
    fun s b rest hs hrest f s' hread => ?_⟩
  have hmarks : Piece.marks false ((if spaced = true then [.space] else []) ++ ps) =
      Piece.marks false ps := by
    cases spaced <;> rfl
  rw [List.cons_append, Piece.marks_token htrivia, hmarks, List.cons_append] at hs
  cases hread with
  | unary ht _ hread => exact (h.ends (head_of_marks hs ht).2.2 (fun _ => hrest rfl) hread).grown
  | unary_plain hnone =>
    rw [kind?_of_marks hs, Option.bind_some, hleading] at hnone
    cases hnone

/-! ## Operators between operands -/

theorem BinaryEnds.mono {least limit limit' : Nat} (h : BinaryEnds least limit ps once)
    (hle : limit' ≤ limit) : BinaryEnds least limit' ps once :=
  ⟨h.opens, fun _ _ _ hs hrest hbelow => h.ends hs hrest fun m hm op hop =>
    Nat.lt_of_lt_of_le (hbelow m hm op hop) hle⟩

theorem binaryEnds_binary {op : BinaryOp} {least : Nat} {qs : List Piece}
    (hop : op.isAssignment = false) (hleast : least ≤ op.precedence)
    (h : BinaryEnds least (op.precedence + 1) ps once) (hps : Settled ps)
    (hright : BinaryEnds op.rightLevel op.rightLevel qs once') :
    BinaryEnds least op.rightLevel (ps ++ [.space, symbol op.symbol, .space] ++ qs)
      (once ∧ once') := by
  rw [List.append_assoc]
  refine ⟨h.opens.append _, fun s b rest hs hrest hbelow f s' hread => ?_⟩
  have hoperand : BinaryOp.ofOperand? (.symbol op.symbol) = some op := by
    simp [BinaryOp.ofOperand?, BinaryOp.ofSymbol?_symbol, hop]
  rw [Piece.marks_append_of_settled hps, List.append_assoc] at hs
  have hnext := h.ends hs (notAt_cons.2 (by cases op <;> rfl)) (fun m hm op' hop' => by
    cases hm
    rw [Option.mem_def.1 hop'] at hoperand
    cases hoperand
    exact Nat.lt_succ_self _) hread
  rcases hnext with hjam | ⟨honce, e, s₁, hclimb, hs₁⟩
  · exact Or.inl hjam
  cases hclimb with
  | climb_stop hstop =>
    rw [kind?_of_marks hs₁] at hstop
    exact absurd (hstop op hoperand) (Nat.not_lt.2 hleast)
  | climb_step ht hop' _ hread hclimb =>
    rw [(head_of_marks hs₁ ht).1, hoperand] at hop'
    cases hop'
    rcases hright.ends (head_of_marks hs₁ ht).2.2 hrest hbelow hread with
      hjam | ⟨honce', e', s₂, hclimb', rfl⟩
    · exact Or.inl (hjam.grown.climb hclimb)
    · obtain rfl := climb_stops (below_marks.1 hbelow) hclimb'
      exact Or.inr ⟨⟨honce, honce'⟩, _, _, hclimb, rfl⟩

/-! ## Whole expressions -/

theorem wholeEnds_conditional {limit : Nat} {qs rs : List Piece} {once'' : Prop}
    (h : BinaryEnds Precedence.nullish limit ps once) (hps : Settled ps) (hyes : WholeEnds qs once')
    (hqs : Settled qs) (hno : WholeEnds rs once'') :
    WholeEnds (ps ++ [.space, symbol .question, .space] ++ qs ++ [.space, symbol .colon, .space] ++
      rs) (once ∧ once' ∧ once'') := by
  refine ⟨(((h.opens.append _).append _).append _).append _, fun s b rest hs hrest f s' hread => ?_⟩
  simp only [List.append_assoc, Piece.marks_append_of_settled hps, List.cons_append,
    List.nil_append, Piece.marks_space, Piece.marks_symbol,
    Piece.marks_append_of_settled hqs] at hs
  have hcondition : ∀ {g : Expression} {s₁ : ParserState},
      Reads (.binary Precedence.nullish) s g s₁ → Ended once _ s₁ :=
    h.run hs (notAt_cons.2 rfl) (notAt_cons.2 rfl)
  refine ended_of_conditional hread (fun hread => ?_) (hrest.mono fun k hk => by
    simp [(TokenKind.extendsExpression_eq_false.1 hk).2.2.1])
  cases hread with
  | conditional_plain hread hq =>
    rcases hcondition hread with hjam | ⟨-, hs₁⟩
    · exact Or.inl hjam
    · exact absurd (kind?_of_marks hs₁) hq
  | conditional hread ht hq hyes' hu hcolon hno' =>
    obtain ⟨honce, hs₁⟩ := (hcondition hread).seam ht hq (by decide)
    obtain ⟨honce', hs₂⟩ := (hyes.ends (head_of_marks hs₁ ht).2.2 (notAt_cons.2 rfl) hyes').seam hu
      hcolon (by decide)
    rcases hno.ends (head_of_marks hs₂ hu).2.2 hrest hno' with hjam | ⟨honce'', hs₃⟩
    · exact Or.inl hjam
    · exact Or.inr ⟨⟨honce, honce', honce''⟩, hs₃⟩

theorem wholeEnds_assignment {op : BinaryOp} {limit : Nat} {qs : List Piece}
    (hop : op.isAssignment = true) (h : BinaryEnds Precedence.nullish limit ps once)
    (hps : Settled ps) (hvalue : WholeEnds qs once') :
    WholeEnds (ps ++ [.space, symbol op.symbol, .space] ++ qs) (once ∧ once') := by
  refine ⟨(h.opens.append _).append _, fun s b rest hs hrest f s' hread => ?_⟩
  have hoperator : BinaryOp.ofAssignment? (.symbol op.symbol) = some op := by
    simp [BinaryOp.ofAssignment?, BinaryOp.ofSymbol?_symbol, hop]
  simp only [List.append_assoc, Piece.marks_append_of_settled hps, List.cons_append,
    List.nil_append, Piece.marks_space, Piece.marks_symbol] at hs
  have hnot : TokenKind.extendsOperand (.symbol op.symbol) = false ∧
      (BinaryOp.ofOperand? (.symbol op.symbol)).isSome = false ∧
      (TokenKind.symbol op.symbol == .symbol .question) = false ∧
      TokenKind.symbol op.symbol ≠ .symbol .plusPlus ∧
      TokenKind.symbol op.symbol ≠ .symbol .minusMinus := by
    cases op <;> first | decide | cases hop
  have htarget : ∀ {g : Expression} {s₁ : ParserState}, Reads .conditional s g s₁ →
      Ended once _ s₁ :=
    h.conditional hs (notAt_cons.2 hnot.1) (notAt_cons.2 hnot.2.1) (notAt_cons.2 hnot.2.2.1)
  cases hread with
  | assignment_plain hread hnone =>
    rcases htarget hread with hjam | ⟨-, hs₁⟩
    · exact Or.inl hjam
    · rw [kind?_of_marks hs₁, Option.bind_some, hoperator] at hnone
      cases hnone
  | assignment hread ht hop' _ hread' =>
    rcases htarget hread with hjam | ⟨honce, hs₁⟩
    · rcases (hjam.head ht).2 with hk | hk <;> rw [hk] at hop' <;> cases hop'
    rcases hvalue.ends (head_of_marks hs₁ ht).2.2 hrest hread' with hjam | ⟨honce', hs₂⟩
    · exact Or.inl hjam
    · exact Or.inr ⟨⟨honce, honce'⟩, hs₂⟩

/-! ## Every expression -/

/-- Readings of the layout of an expression end at its seam or at a jam, at every level that its
precedence allows. -/
structure Seamed (e : Expression) : Prop where
  whole : WholeEnds e.pieces (e.All Expression.TrailsOnce)
  binary : ∀ {least : Nat}, least ≤ e.precedence → Precedence.nullish ≤ e.precedence →
    BinaryEnds least e.limit e.pieces (e.All Expression.TrailsOnce)
  unary : Precedence.unary ≤ e.precedence →
    UnaryEnds e.isTrailing e.pieces (e.All Expression.TrailsOnce)
  chain : Precedence.member ≤ e.precedence → ∀ calls : Bool,
    (e.startsWithCall = true → calls = true) →
    ChainEnds calls e.pieces (e.All Expression.TrailsOnce)

variable {e : Expression}

theorem Seamed.ofChain (htrails : e.isTrailing = false)
    (h : ∀ calls : Bool, (e.startsWithCall = true → calls = true) →
      ChainEnds calls e.pieces (e.All Expression.TrailsOnce)) : Seamed e := by
  have hunary : UnaryEnds e.isTrailing e.pieces (e.All Expression.TrailsOnce) := by
    rw [htrails]
    exact (h true fun _ => rfl).unary
  exact ⟨(hunary.binary _ 0).whole, fun _ _ => hunary.binary _ _, fun _ => hunary, fun _ => h⟩

theorem Seamed.ofUnary (h : UnaryEnds e.isTrailing e.pieces (e.All Expression.TrailsOnce))
    (hlt : e.precedence < Precedence.member) : Seamed e :=
  ⟨(h.binary _ 0).whole, fun _ _ => h.binary _ _, fun _ => h,
    fun hle => absurd hlt (Nat.not_lt.2 hle)⟩

theorem Seamed.ofBinary (h : ∀ {least : Nat}, least ≤ e.precedence →
    BinaryEnds least e.limit e.pieces (e.All Expression.TrailsOnce))
    (hle : Precedence.nullish ≤ e.precedence) (hlt : e.precedence < Precedence.unary) : Seamed e :=
  ⟨(h hle).whole, fun hle _ => h hle, fun hle => absurd hlt (Nat.not_lt.2 hle),
    fun hle => absurd (Nat.lt_trans hlt (by decide)) (Nat.not_lt.2 hle)⟩

theorem Seamed.ofWhole (h : WholeEnds e.pieces (e.All Expression.TrailsOnce))
    (hlt : e.precedence < Precedence.nullish) : Seamed e :=
  ⟨h, fun _ hle => absurd hlt (Nat.not_lt.2 hle),
    fun hle => absurd (Nat.lt_trans hlt (by decide)) (Nat.not_lt.2 hle),
    fun hle => absurd (Nat.lt_trans hlt (by decide)) (Nat.not_lt.2 hle)⟩

namespace Seamed

/-- An operand that starts a chain, with parentheses or without. -/
theorem chainOperand (h : Seamed e) {wrap : Bool} {calls : Bool}
    (hwrap : wrap = false →
      Precedence.member ≤ e.precedence ∧ (e.startsWithCall = true → calls = true)) :
    ChainEnds calls (parenthesizedIf wrap e.pieces) (e.All Expression.TrailsOnce) := by
  cases wrap with
  | true => exact h.whole.group (settled_pieces e) calls
  | false => exact h.chain (hwrap rfl).1 calls (hwrap rfl).2

theorem unaryOperand (h : Seamed e) {level : Nat} (hlevel : Precedence.unary ≤ level) :
    ∃ trails, UnaryEnds trails (parenthesizedIf (e.precedence < level) e.pieces)
      (e.All Expression.TrailsOnce) := by
  refine operand_cases
    (motive := fun ps => ∃ trails, UnaryEnds trails ps (e.All Expression.TrailsOnce)) ?_
    fun hle => ?_
  · exact ⟨false, (h.whole.group (settled_pieces e) true).unary⟩
  · exact ⟨_, h.unary (Nat.le_trans hlevel hle)⟩

theorem binaryOperand (h : Seamed e) {least limit level : Nat} (hleast : least ≤ level)
    (hlevel : Precedence.nullish ≤ level) (hlimit : level ≤ e.precedence → limit ≤ e.limit) :
    BinaryEnds least limit (parenthesizedIf (e.precedence < level) e.pieces)
      (e.All Expression.TrailsOnce) := by
  refine operand_cases
    (motive := fun ps => BinaryEnds least limit ps (e.All Expression.TrailsOnce)) ?_ fun hle => ?_
  · exact (h.whole.group (settled_pieces e) true).unary.binary _ _
  · exact (h.binary (Nat.le_trans hleast hle) (Nat.le_trans hlevel hle)).mono (hlimit hle)

theorem wholeOperand (h : Seamed e) :
    WholeEnds (parenthesizedIf (e.precedence < Precedence.assignment) e.pieces)
      (e.All Expression.TrailsOnce) := by
  rw [decide_eq_false (Nat.not_lt.2 e.assignment_le_precedence)]
  exact h.whole

end Seamed

/-- No expression between commas is there where the list is closed. -/
theorem WholeEnds.kind?_ne_close (h : WholeEnds ps once) {close : Symbol}
    (hclose : close = .rightParen ∨ close = .rightBracket)
    (hs : s.marks = Piece.marks b ps ++ rest) : s.kind? ≠ some (.symbol close) := by
  obtain ⟨k, hk, hstart⟩ := h.opens.kind? hs
  rw [hk]
  rintro ⟨⟩
  rcases hclose with rfl | rfl <;> cases hstart

mutual

/-- **Every reading of the layout of an expression ends at the seam or at a jam**, and at the seam
only if no operator stands behind another one of its kind. -/
theorem seamed : ∀ e : Expression, Seamed e
  | .number .. | .null .. | .identifier .. | .string .. => .ofChain rfl fun calls _ => by
    rw [Expression.pieces]
    exact chainEnds_token rfl rfl (fun h => by cases h) (fun _ h => by cases h) calls
  | .boolean _ value => .ofChain rfl fun calls _ => by
    rw [Expression.pieces]
    exact chainEnds_token rfl (by cases value <;> rfl) (by cases value <;> decide)
      (fun _ h => by cases h) calls
  | .binary n op left right => by
    have hleft := seamed left
    have hright := seamed right
    cases hop : op.isAssignment with
    | true =>
      refine .ofWhole ?_ (BinaryOp.precedence_lt_of_isAssignment hop)
      rw [Expression.pieces, BinaryOp.operandLevels_of_isAssignment hop]
      exact (wholeEnds_assignment hop
        (hleft.binaryOperand (by decide) (by decide) fun _ => Nat.zero_le _)
        (settled_parenthesizedIf (settled_pieces left) _) hright.wholeOperand).imp (⟨trivial, ·⟩)
    | false =>
      have hlevels := BinaryOp.levels_of_not_isAssignment hop
      refine .ofBinary (fun hleast => ?_) hlevels.1 op.precedence_lt_unary
      rw [Expression.pieces]
      refine (binaryEnds_binary hop hleast (hleft.binaryOperand (Nat.le_trans hleast hlevels.2.1)
        (Nat.le_trans hlevels.1 hlevels.2.1) fun hle => ?_)
        (settled_parenthesizedIf (settled_pieces left) _)
        (hright.binaryOperand hlevels.2.2.1 hlevels.2.2.2 fun hle => ?_)).imp (⟨trivial, ·⟩)
      · exact Expression.succ_precedence_le_limit hop hle
      · exact Nat.le_trans hlevels.2.2.1 (Nat.le_trans hle (right.precedence_le_limit))
  | .unary n op operand => by
    have hoperand := seamed operand
    have hlt : (Expression.unary n op operand).precedence < Precedence.member := by
      simp only [Expression.precedence]
      split <;> decide
    refine .ofUnary ?_ hlt
    rw [Expression.pieces, Expression.isTrailing]
    cases hop : op.isTrailing with
    | false =>
      obtain ⟨trails, h⟩ := hoperand.unaryOperand (Nat.le_refl Precedence.unary)
      exact (unaryEnds_leading h _ hop).imp fun honce => ⟨fun h => by simp [hop] at h, honce⟩
    | true =>
      cases htrails : operand.isTrailing with
      | true =>
        -- the operand is as tight as it has to be, so no parentheses keep the two apart
        have hlevel := Expression.precedence_of_isTrailing htrails
        have h := hoperand.unary (by rw [hlevel]; decide)
        rw [htrails] at h
        simp only [hlevel, parenthesizedIf]
        exact (h.jam (settled_pieces operand) hop).imp False.elim
      | false =>
        refine (unaryEnds_trailing (hoperand.chainOperand fun hw => ⟨?_, fun _ => rfl⟩)
          (settled_parenthesizedIf (settled_pieces operand) _) hop).imp
            fun honce => ⟨fun h => by simp [htrails] at h, honce⟩
        exact Expression.member_le_precedence htrails (Nat.le_of_not_lt (of_decide_eq_false hw))
  | .call n callee arguments => .ofChain rfl fun calls hcalls => by
    rw [Expression.pieces, hcalls rfl]
    exact (chainEnds_call ((seamed callee).chainOperand fun hw =>
      ⟨Nat.le_of_not_lt (of_decide_eq_false hw), fun _ => rfl⟩)
      (settled_parenthesizedIf (settled_pieces callee) _) (elementsEnd arguments)).imp
        (⟨trivial, ·⟩)
  | .construct n callee arguments => .ofChain rfl fun calls _ => by
    rw [Expression.pieces]
    refine (chainEnds_construct ((seamed callee).chainOperand fun hw => ?_)
      (settled_parenthesizedIf (settled_pieces callee) _) (elementsEnd arguments) calls).imp
        (⟨trivial, ·⟩)
    rw [Bool.or_eq_false_iff, decide_eq_false_iff_not, Nat.not_lt] at hw
    exact ⟨hw.2, fun hcall => by rw [hw.1] at hcall; cases hcall⟩
  | .member n object property => .ofChain rfl fun calls hcalls => by
    rw [Expression.pieces]
    refine (chainEnds_member ((seamed object).chainOperand fun hw => ?_)
      (settled_parenthesizedIf (settled_pieces object) _)).imp (⟨trivial, ·⟩)
    rw [Bool.or_eq_false_iff, decide_eq_false_iff_not, Nat.not_lt] at hw
    exact ⟨hw.2, hcalls⟩
  | .index n object position => .ofChain rfl fun calls hcalls => by
    rw [Expression.pieces]
    exact (chainEnds_index ((seamed object).chainOperand fun hw =>
      ⟨Nat.le_of_not_lt (of_decide_eq_false hw), hcalls⟩)
      (settled_parenthesizedIf (settled_pieces object) _) (seamed position).whole).imp
        (⟨trivial, ·⟩)
  | .conditional n condition yes no => by
    refine .ofWhole ?_ (by simp only [Expression.precedence]; decide)
    rw [Expression.pieces]
    exact (wholeEnds_conditional
      ((seamed condition).binaryOperand (Nat.le_refl _) (Nat.le_refl _) fun _ => Nat.zero_le _)
      (settled_parenthesizedIf (settled_pieces condition) _) (seamed yes).wholeOperand
      (settled_parenthesizedIf (settled_pieces yes) _) (seamed no).wholeOperand).imp (⟨trivial, ·⟩)
  | .array n elements => .ofChain rfl fun calls _ => by
    rw [Expression.pieces]
    exact (chainEnds_array (elementsEnd elements) calls).imp (⟨trivial, ·⟩)

theorem elementsEnd : ∀ es : List Expression,
    ElementsEnd es (Expression.AllOf Expression.TrailsOnce es)
  | [] => by
    intro close s rest _ hs es' s' hread
    cases hread with
    | close ht => exact ⟨trivial, (head_of_marks hs ht).2.2⟩
    | last hk | more hk => exact absurd (kind?_of_marks hs) hk
  | [e] => by
    intro close s rest hclose hs es' s' hread
    have hends := (seamed e).wholeOperand
    have hseam : ∀ {f : Expression} {s₁ : ParserState}, Reads .assignment s f s₁ →
        Ended (e.All Expression.TrailsOnce) ((.symbol close, false) :: rest) s₁ :=
      hends.ends hs (notAt_cons.2 (by rcases hclose with rfl | rfl <;> rfl))
    have hfence : TokenKind.symbol close ≠ .symbol .plusPlus ∧
        TokenKind.symbol close ≠ .symbol .minusMinus := by
      rcases hclose with rfl | rfl <;> decide
    cases hread with
    | close ht hk => exact absurd (by rw [kind?_of_tokens ht, hk]) (hends.kind?_ne_close hclose hs)
    | last _ hread _ ht hk =>
      obtain ⟨honce, hs₁⟩ := (hseam hread).seam ht hk hfence
      exact ⟨⟨honce, trivial⟩, (head_of_marks hs₁ ht).2.2⟩
    | more _ hread ht hk =>
      obtain ⟨-, hs₁⟩ := (hseam hread).seam ht hk (by decide)
      rw [(head_of_marks hs₁ ht).1] at hk
      rcases hclose with rfl | rfl <;> cases hk
  | e :: e' :: es => by
    intro close s rest hclose hs es' s' hread
    have hends := (seamed e).wholeOperand
    rw [Expression.listPieces, Expression.listPieces,
      Piece.marks_separated_cons (settled_parenthesizedIf (settled_pieces e) _),
      List.append_assoc] at hs
    have hseam : ∀ {f : Expression} {s₁ : ParserState}, Reads .assignment s f s₁ →
        Ended (e.All Expression.TrailsOnce) _ s₁ := hends.ends hs (notAt_cons.2 rfl)
    cases hread with
    | close ht hk => exact absurd (by rw [kind?_of_tokens ht, hk]) (hends.kind?_ne_close hclose hs)
    | last _ hread hcomma ht hk =>
      obtain ⟨-, hs₁⟩ := (hseam hread).seam ht hk (by rcases hclose with rfl | rfl <;> decide)
      exact absurd (kind?_of_marks hs₁) hcomma
    | more _ hread ht hk hreads =>
      obtain ⟨honce, hs₁⟩ := (hseam hread).seam ht hk (by decide)
      obtain ⟨honces, hs'⟩ := elementsEnd (e' :: es) hclose (head_of_marks hs₁ ht).2.2 hreads
      exact ⟨⟨honce, honces⟩, hs'⟩

end

end Parse

end DecimalLift
