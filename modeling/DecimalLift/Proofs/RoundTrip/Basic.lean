import DecimalLift.Proofs.Layout.Pieces
import DecimalLift.Proofs.Parse.State
import DecimalLift.Proofs.Tree

/-!
# Copies, and what follows them in a queue

* `Expression.Copy` — the same tree up to ids and spans, every string spelt out.
* `ParserState.exists_of_marks` — the first mark of a queue gives its first token.
* `NotAt`, `Below` — what does not stand in front of a list of marks: tokens of certain kinds, or
  operators of a certain precedence.
-/

set_option autoImplicit false

namespace DecimalLift

/-! ## Copies -/

namespace Expression

/-- `e'` is `e` up to ids and spans, with every string spelt out. -/
def Copy (e' e : Expression) : Prop := e'.erase = e.spelled.erase

/-- The same of several expressions, one by one. -/
def CopyAll (es' es : List Expression) : Prop :=
  relabelAll .erase es' = relabelAll .erase (relabelAll .spell es)

section

variable {e e' f f' g g' : Expression} {es es' : List Expression} {n n' : Node}

theorem Copy.binary {op : BinaryOp} (h : Copy e' e) (hf : Copy f' f) :
    Copy (.binary n' op e' f') (.binary n op e f) := by
  unfold Copy erase spelled at *
  simp only [relabel, h, hf]
  rfl

theorem Copy.unary {op : UnaryOp} (h : Copy e' e) : Copy (.unary n' op e') (.unary n op e) := by
  unfold Copy erase spelled at *
  simp only [relabel, h]
  rfl

theorem Copy.call (h : Copy e' e) (hes : CopyAll es' es) :
    Copy (.call n' e' es') (.call n e es) := by
  unfold Copy CopyAll erase spelled at *
  simp only [relabel, h, hes]
  rfl

theorem Copy.construct (h : Copy e' e) (hes : CopyAll es' es) :
    Copy (.construct n' e' es') (.construct n e es) := by
  unfold Copy CopyAll erase spelled at *
  simp only [relabel, h, hes]
  rfl

theorem Copy.member {property : String} (h : Copy e' e) :
    Copy (.member n' e' property) (.member n e property) := by
  unfold Copy erase spelled at *
  simp only [relabel, h]
  rfl

theorem Copy.index (h : Copy e' e) (hf : Copy f' f) : Copy (.index n' e' f') (.index n e f) := by
  unfold Copy erase spelled at *
  simp only [relabel, h, hf]
  rfl

theorem Copy.conditional (h : Copy e' e) (hf : Copy f' f) (hg : Copy g' g) :
    Copy (.conditional n' e' f' g') (.conditional n e f g) := by
  unfold Copy erase spelled at *
  simp only [relabel, h, hf, hg]
  rfl

theorem Copy.array (hes : CopyAll es' es) : Copy (.array n' es') (.array n es) := by
  unfold Copy CopyAll erase spelled at *
  simp only [relabel, hes]
  rfl

theorem CopyAll.cons (h : Copy e' e) (hes : CopyAll es' es) : CopyAll (e' :: es') (e :: es) := by
  unfold Copy CopyAll erase spelled at *
  simp only [relabelAll, h, hes]

end

theorem Copy.unspelled {e' e : Expression} (h : Copy e' e) :
    e'.erase.unspelled = e.erase.unspelled := by
  rw [h]
  unfold Expression.unspelled erase spelled
  rw [relabel_relabel, relabel_relabel, relabel_relabel]
  rfl

theorem Copy.isAssignable {e' e : Expression} (h : Copy e' e) :
    e'.isAssignable = e.isAssignable := by
  have := congrArg Expression.isAssignable h
  simpa only [erase, spelled, isAssignable_relabel] using this

end Expression

/-! ## Queues -/

namespace ParserState

variable {s : ParserState} {k : TokenKind} {b : Bool} {ms : List Mark}

theorem exists_of_marks (h : s.marks = (k, b) :: ms) :
    ∃ t ts, s.tokens = t :: ts ∧ t.kind = k ∧ t.afterBreak = b ∧ (s.past t ts).marks = ms := by
  obtain ⟨t, ts, hs, hmark, hms⟩ := List.map_eq_cons_iff.1 h
  exact ⟨t, ts, hs, congrArg Prod.fst hmark, congrArg Prod.snd hmark, hms⟩

theorem kinds_of_marks (h : s.marks = ms) : s.tokens.map (·.kind) = ms.map (·.1) := by
  rw [← h, marks, List.map_map]
  rfl

theorem kind?_of_marks (h : s.marks = (k, b) :: ms) : s.kind? = some k := by
  obtain ⟨t, ts, hs, hk, -⟩ := exists_of_marks h
  rw [kind?_of_tokens hs, hk]

end ParserState

/-! ## What follows -/

/-- Kinds of token that go on with an operand. -/
def TokenKind.extendsOperand : TokenKind → Bool
  | .symbol s =>
    s == .dot || s == .leftBracket || s == .leftParen || s == .plusPlus || s == .minusMinus
  | _ => false

/-- Kinds of token that go on with an expression. -/
def TokenKind.extendsExpression (k : TokenKind) : Bool :=
  k.extendsOperand || (BinaryOp.ofOperand? k).isSome || (BinaryOp.ofAssignment? k).isSome
    || k == .symbol .question

/-- The first mark is of no kind that `p` holds of. -/
def NotAt (p : TokenKind → Bool) (ms : List Mark) : Prop := ∀ m ∈ ms.head?, p m.1 = false

theorem notAt_cons {p : TokenKind → Bool} {k : TokenKind} {b : Bool} {ms : List Mark} :
    NotAt p ((k, b) :: ms) ↔ p k = false := by
  simp [NotAt]

theorem NotAt.mono {p q : TokenKind → Bool} {ms : List Mark} (h : NotAt p ms)
    (hpq : ∀ k, p k = false → q k = false) : NotAt q ms :=
  fun m hm => hpq m.1 (h m hm)

theorem TokenKind.extendsExpression_eq_false {k : TokenKind} : k.extendsExpression = false ↔
    k.extendsOperand = false ∧ BinaryOp.ofOperand? k = none ∧ BinaryOp.ofAssignment? k = none ∧
      k ≠ .symbol .question := by
  simp [extendsExpression, and_assoc]

/-- Operators in front of the marks bind less tightly than `limit`. -/
def Below (limit : Nat) (ms : List Mark) : Prop :=
  ∀ m ∈ ms.head?, ∀ op ∈ BinaryOp.ofOperand? m.1, op.precedence < limit

theorem below_of_notAt {ms : List Mark} (h : NotAt (fun k => (BinaryOp.ofOperand? k).isSome) ms)
    (limit : Nat) : Below limit ms := by
  intro m hm op hop
  have hnone : (BinaryOp.ofOperand? m.1).isSome = false := h m hm
  rw [Option.mem_def.1 hop] at hnone
  cases hnone

section

variable {s : ParserState}

theorem notAt_marks {p : TokenKind → Bool} :
    NotAt p s.marks ↔ ∀ k ∈ s.kind?, p k = false := by
  unfold NotAt ParserState.marks ParserState.kind?
  cases s.tokens <;> simp [Token.mark]

theorem bind_kind?_of_notAt {α : Type} {p : TokenKind → Bool} {f : TokenKind → Option α}
    (h : NotAt p s.marks) (hf : ∀ k, p k = false → f k = none) : s.kind?.bind f = none := by
  cases hk : s.kind? with
  | none => rfl
  | some k => exact hf k (notAt_marks.1 h k hk)

theorem kind?_ne_of_notAt {p : TokenKind → Bool} {k : TokenKind} (h : NotAt p s.marks)
    (hk : p k = true) : s.kind? ≠ some k := by
  intro heq
  rw [notAt_marks.1 h k heq] at hk
  cases hk

theorem below_marks {limit : Nat} :
    Below limit s.marks ↔ ∀ op ∈ s.kind?.bind BinaryOp.ofOperand?, op.precedence < limit := by
  unfold Below ParserState.marks ParserState.kind?
  cases s.tokens <;> simp [Token.mark]

end

end DecimalLift
