import DecimalLift.Parse.Expression
import DecimalLift.Proofs.Parse.State

/-!
# The grammar of expressions

The readers of expressions call one another with a budget of steps. This file states what they read
as a relation without any budget, one rule for each way through a reader. All later statements about
trees that were read go by induction on `Reads`; all statements that something can be read build a
derivation.

* `Reader` — the readers, with what they carry along: `climb` and `suffixes` hold the expression
  read so far.
* `Reads r s e s'` — the reader `r` takes `e` from the queue of `s` and leaves `s'`.
* `Reads.length` — every reader takes a token, apart from the two loops.
* `Reads.leads` — a reader takes tokens and makes nodes, and does nothing else to a state.
* `startsExpression_of_assignment` and its fellows — what the first token taken can be.
-/

set_option autoImplicit false

namespace DecimalLift

namespace BinaryOp

/-- The least precedence that an operator accepts in its right operand. -/
def rightLevel (op : BinaryOp) : Nat :=
  if op.isRightAssociative then op.precedence else op.precedence + 1

theorem precedence_le_rightLevel (op : BinaryOp) : op.precedence ≤ op.rightLevel := by
  unfold rightLevel
  split <;> omega

theorem symbol_of_ofSymbol? {y : Symbol} {op : BinaryOp} (h : ofSymbol? y = some op) :
    op.symbol = y := by
  simpa using List.find?_some h

theorem kind_of_ofOperand? {k : TokenKind} {op : BinaryOp} (h : ofOperand? k = some op) :
    k = .symbol op.symbol := by
  cases k with
  | symbol y => rw [symbol_of_ofSymbol? (Option.filter_eq_some_iff.1 h).1]
  | _ => cases h

theorem not_isAssignment_of_ofOperand? {k : TokenKind} {op : BinaryOp}
    (h : ofOperand? k = some op) : op.isAssignment = false := by
  cases k with
  | symbol y =>
    obtain ⟨-, hop⟩ := Option.filter_eq_some_iff.1 h
    simpa using hop
  | _ => cases h

end BinaryOp

namespace Parse

open ParserState (past_tokens grown_tokens kind?_of_tokens)

/-- The readers of single expressions. -/
inductive Reader where
  | assignment
  | conditional
  | binary (least : Nat)
  | climb (least : Nat) (left : Expression)
  | unary
  | trailing
  | call
  /-- What a chain of members, positions and arguments starts with. -/
  | head
  | construction
  | suffixes (calls : Bool) (head : Expression)
  | primary

/-- The operator behind an operand and on the same line. -/
def trailingOp? (s : ParserState) : Option UnaryOp :=
  s.tokens.head?.bind fun t => if t.afterBreak then none else UnaryOp.ofTrailing? t.kind

/-- Whether a chain ends before the next token. -/
def endsChain (calls : Bool) (s : ParserState) : Prop :=
  s.kind? ≠ some (.symbol .dot) ∧ s.kind? ≠ some (.symbol .leftBracket) ∧
    (calls = true → s.kind? ≠ some (.symbol .leftParen))

mutual

/-- What a reader takes from the front of a queue. -/
inductive Reads : Reader → ParserState → Expression → ParserState → Prop
  | assignment_plain {s s' : ParserState} {e : Expression} (h : Reads .conditional s e s')
      (hop : s'.kind?.bind BinaryOp.ofAssignment? = none) : Reads .assignment s e s'
  | assignment {s s₁ s₂ : ParserState} {target value : Expression} {t : Token} {ts : List Token}
      {op : BinaryOp} (h : Reads .conditional s target s₁) (ht : s₁.tokens = t :: ts)
      (hop : BinaryOp.ofAssignment? t.kind = some op) (hassign : target.isAssignable = true)
      (hvalue : Reads .assignment (s₁.past t ts) value s₂) :
      Reads .assignment s
        (.binary ⟨s₂.nextId, target.span.join value.span⟩ op target value) s₂.grown
  | conditional_plain {s s' : ParserState} {e : Expression}
      (h : Reads (.binary Precedence.nullish) s e s') (hq : s'.kind? ≠ some (.symbol .question)) :
      Reads .conditional s e s'
  | conditional {s s₁ s₂ s₃ : ParserState} {condition yes no : Expression} {t u : Token}
      {ts us : List Token} (h : Reads (.binary Precedence.nullish) s condition s₁)
      (ht : s₁.tokens = t :: ts) (hq : t.kind = .symbol .question)
      (hyes : Reads .assignment (s₁.past t ts) yes s₂) (hu : s₂.tokens = u :: us)
      (hcolon : u.kind = .symbol .colon) (hno : Reads .assignment (s₂.past u us) no s₃) :
      Reads .conditional s
        (.conditional ⟨s₃.nextId, condition.span.join no.span⟩ condition yes no) s₃.grown
  | binary {s s₁ s' : ParserState} {least : Nat} {left e : Expression} (h : Reads .unary s left s₁)
      (hclimb : Reads (.climb least left) s₁ e s') : Reads (.binary least) s e s'
  | climb_stop {s : ParserState} {least : Nat} {e : Expression}
      (h : ∀ op ∈ s.kind?.bind BinaryOp.ofOperand?, op.precedence < least) :
      Reads (.climb least e) s e s
  | climb_step {s s₁ s' : ParserState} {least : Nat} {left right e : Expression} {t : Token}
      {ts : List Token} {op : BinaryOp} (ht : s.tokens = t :: ts)
      (hop : BinaryOp.ofOperand? t.kind = some op) (hleast : least ≤ op.precedence)
      (hright : Reads (.binary op.rightLevel) (s.past t ts) right s₁)
      (hclimb : Reads (.climb least
        (.binary ⟨s₁.nextId, left.span.join right.span⟩ op left right)) s₁.grown e s') :
      Reads (.climb least left) s e s'
  | unary_plain {s s' : ParserState} {e : Expression}
      (hop : s.kind?.bind UnaryOp.ofLeading? = none) (h : Reads .trailing s e s') :
      Reads .unary s e s'
  | unary {s s₁ : ParserState} {operand : Expression} {t : Token} {ts : List Token} {op : UnaryOp}
      (ht : s.tokens = t :: ts) (hop : UnaryOp.ofLeading? t.kind = some op)
      (h : Reads .unary (s.past t ts) operand s₁) :
      Reads .unary s (.unary (s₁.nodeFrom t.span.start) op operand) s₁.grown
  | trailing_plain {s s' : ParserState} {e : Expression} (h : Reads .call s e s')
      (hop : trailingOp? s' = none) : Reads .trailing s e s'
  | trailing {s s₁ : ParserState} {operand : Expression} {t : Token} {ts : List Token}
      {op : UnaryOp} (h : Reads .call s operand s₁) (ht : s₁.tokens = t :: ts)
      (hop : trailingOp? s₁ = some op) :
      Reads .trailing s (.unary ((s₁.past t ts).nodeFrom operand.span.start) op operand)
        (s₁.past t ts).grown
  | call {s s₁ s' : ParserState} {head e : Expression} (h : Reads .head s head s₁)
      (hsuffixes : Reads (.suffixes true head) s₁ e s') : Reads .call s e s'
  | head_new {s s' : ParserState} {e : Expression} (hk : s.kind? = some (.keyword .newWord))
      (h : Reads .construction s e s') : Reads .head s e s'
  | head_primary {s s' : ParserState} {e : Expression} (hk : s.kind? ≠ some (.keyword .newWord))
      (h : Reads .primary s e s') : Reads .head s e s'
  | construction {s s₁ s₂ s₃ : ParserState} {head callee : Expression} {arguments : List Expression}
      {t u : Token} {ts us : List Token} (ht : s.tokens = t :: ts)
      (hnew : t.kind = .keyword .newWord) (h : Reads .head (s.past t ts) head s₁)
      (hcallee : Reads (.suffixes false head) s₁ callee s₂) (hu : s₂.tokens = u :: us)
      (hparen : u.kind = .symbol .leftParen)
      (harguments : ReadsAll .rightParen (s₂.past u us) arguments s₃) :
      Reads .construction s (.construct (s₃.nodeFrom t.span.start) callee arguments) s₃.grown
  | construction_bare {s s₁ s₂ : ParserState} {head callee : Expression} {t : Token}
      {ts : List Token} (ht : s.tokens = t :: ts) (hnew : t.kind = .keyword .newWord)
      (h : Reads .head (s.past t ts) head s₁) (hcallee : Reads (.suffixes false head) s₁ callee s₂)
      (hparen : s₂.kind? ≠ some (.symbol .leftParen)) :
      Reads .construction s (.construct (s₂.nodeFrom t.span.start) callee []) s₂.grown
  | suffixes_stop {s : ParserState} {calls : Bool} {e : Expression} (h : endsChain calls s) :
      Reads (.suffixes calls e) s e s
  | member {s s' : ParserState} {calls : Bool} {head e : Expression} {t u : Token} {ts : List Token}
      {property : String} (ht : s.tokens = t :: u :: ts) (hdot : t.kind = .symbol .dot)
      (hu : u.kind = .identifier property)
      (h : Reads (.suffixes calls
        (.member ((s.past u ts).nodeFrom head.span.start) head property))
        (s.past u ts).grown e s') :
      Reads (.suffixes calls head) s e s'
  | index {s s₁ s' : ParserState} {calls : Bool} {head position e : Expression} {t u : Token}
      {ts us : List Token} (ht : s.tokens = t :: ts) (hopen : t.kind = .symbol .leftBracket)
      (hposition : Reads .assignment (s.past t ts) position s₁) (hu : s₁.tokens = u :: us)
      (hclose : u.kind = .symbol .rightBracket)
      (h : Reads (.suffixes calls
        (.index ((s₁.past u us).nodeFrom head.span.start) head position))
        (s₁.past u us).grown e s') :
      Reads (.suffixes calls head) s e s'
  | arguments {s s₁ s' : ParserState} {head e : Expression} {arguments : List Expression}
      {t : Token} {ts : List Token} (ht : s.tokens = t :: ts) (hopen : t.kind = .symbol .leftParen)
      (harguments : ReadsAll .rightParen (s.past t ts) arguments s₁)
      (h : Reads (.suffixes true
        (.call (s₁.nodeFrom head.span.start) head arguments)) s₁.grown e s') :
      Reads (.suffixes true head) s e s'
  | number {s : ParserState} {t : Token} {ts : List Token} {raw : String} (ht : s.tokens = t :: ts)
      (hk : t.kind = .number raw) :
      Reads .primary s (.number ((s.past t ts).nodeFrom t.span.start) raw) (s.past t ts).grown
  | string {s : ParserState} {t : Token} {ts : List Token} {value raw : String} {quote : Quote}
      (ht : s.tokens = t :: ts) (hk : t.kind = .string value quote raw) :
      Reads .primary s (.string ((s.past t ts).nodeFrom t.span.start) value quote (some raw))
        (s.past t ts).grown
  | boolean {s : ParserState} {t : Token} {ts : List Token} {value : Bool} (ht : s.tokens = t :: ts)
      (hk : t.kind = .keyword (if value then .trueWord else .falseWord)) :
      Reads .primary s (.boolean ((s.past t ts).nodeFrom t.span.start) value) (s.past t ts).grown
  | null {s : ParserState} {t : Token} {ts : List Token} (ht : s.tokens = t :: ts)
      (hk : t.kind = .keyword .nullWord) :
      Reads .primary s (.null ((s.past t ts).nodeFrom t.span.start)) (s.past t ts).grown
  | identifier {s : ParserState} {t : Token} {ts : List Token} {name : String}
      (ht : s.tokens = t :: ts) (hk : t.kind = .identifier name) :
      Reads .primary s (.identifier ((s.past t ts).nodeFrom t.span.start) name) (s.past t ts).grown
  | group {s s₁ : ParserState} {e : Expression} {t u : Token} {ts us : List Token}
      (ht : s.tokens = t :: ts) (hk : t.kind = .symbol .leftParen)
      (h : Reads .assignment (s.past t ts) e s₁) (hu : s₁.tokens = u :: us)
      (hclose : u.kind = .symbol .rightParen) : Reads .primary s e (s₁.past u us)
  | array {s s₁ : ParserState} {elements : List Expression} {t : Token} {ts : List Token}
      (ht : s.tokens = t :: ts) (hk : t.kind = .symbol .leftBracket)
      (h : ReadsAll .rightBracket (s.past t ts) elements s₁) :
      Reads .primary s (.array (s₁.nodeFrom t.span.start) elements) s₁.grown

/-- Expressions between commas, and the symbol that closes them. -/
inductive ReadsAll : Symbol → ParserState → List Expression → ParserState → Prop
  | close {s : ParserState} {close : Symbol} {t : Token} {ts : List Token} (ht : s.tokens = t :: ts)
      (hk : t.kind = .symbol close) : ReadsAll close s [] (s.past t ts)
  | last {s s₁ : ParserState} {close : Symbol} {e : Expression} {t : Token} {ts : List Token}
      (hk : s.kind? ≠ some (.symbol close)) (h : Reads .assignment s e s₁)
      (hcomma : s₁.kind? ≠ some (.symbol .comma)) (ht : s₁.tokens = t :: ts)
      (hclose : t.kind = .symbol close) : ReadsAll close s [e] (s₁.past t ts)
  | more {s s₁ s' : ParserState} {close : Symbol} {e : Expression} {es : List Expression}
      {t : Token} {ts : List Token} (hk : s.kind? ≠ some (.symbol close))
      (h : Reads .assignment s e s₁)
      (ht : s₁.tokens = t :: ts) (hcomma : t.kind = .symbol .comma)
      (hrest : ReadsAll close (s₁.past t ts) es s') : ReadsAll close s (e :: es) s'

end

/-! ## Tokens taken -/

/-- How many tokens a reader takes at least: the two loops may stop at once. -/
def Reader.least : Reader → Nat
  | .climb _ _ | .suffixes _ _ => 0
  | _ => 1

mutual

theorem Reads.length {r : Reader} {s s' : ParserState} {e : Expression} :
    Reads r s e s' → s'.tokens.length + r.least ≤ s.tokens.length
  | .assignment_plain h _ => h.length
  | .assignment h ht _ _ hvalue => by
    have h₁ := h.length
    have h₂ := hvalue.length
    simp only [ht, List.length_cons, past_tokens, grown_tokens, Reader.least] at h₁ h₂ ⊢
    omega
  | .conditional_plain h _ => h.length
  | .conditional h ht _ hyes hu _ hno => by
    have h₁ := h.length
    have h₂ := hyes.length
    have h₃ := hno.length
    simp only [ht, hu, List.length_cons, past_tokens, grown_tokens, Reader.least] at h₁ h₂ h₃ ⊢
    omega
  | .binary h hclimb => by
    have h₁ := h.length
    have h₂ := hclimb.length
    simp only [Reader.least] at h₁ h₂ ⊢
    omega
  | .climb_stop _ => Nat.le_refl _
  | .climb_step ht _ _ hright hclimb => by
    have h₁ := hright.length
    have h₂ := hclimb.length
    simp only [ht, List.length_cons, past_tokens, grown_tokens, Reader.least] at h₁ h₂ ⊢
    omega
  | .unary_plain _ h => h.length
  | .unary ht _ h => by
    have h₁ := h.length
    simp only [ht, List.length_cons, past_tokens, grown_tokens, Reader.least] at h₁ ⊢
    omega
  | .trailing_plain h _ => h.length
  | .trailing h ht _ => by
    have h₁ := h.length
    simp only [ht, List.length_cons, past_tokens, grown_tokens, Reader.least] at h₁ ⊢
    omega
  | .call h hsuffixes => by
    have h₁ := h.length
    have h₂ := hsuffixes.length
    simp only [Reader.least] at h₁ h₂ ⊢
    omega
  | .head_new _ h => h.length
  | .head_primary _ h => h.length
  | .construction ht _ h hcallee hu _ harguments => by
    have h₁ := h.length
    have h₂ := hcallee.length
    have h₃ := harguments.length
    simp only [ht, hu, List.length_cons, past_tokens, grown_tokens, Reader.least] at h₁ h₂ h₃ ⊢
    omega
  | .construction_bare ht _ h hcallee _ => by
    have h₁ := h.length
    have h₂ := hcallee.length
    simp only [ht, List.length_cons, past_tokens, grown_tokens, Reader.least] at h₁ h₂ ⊢
    omega
  | .suffixes_stop _ => Nat.le_refl _
  | .member ht _ _ h => by
    have h₁ := h.length
    simp only [ht, List.length_cons, past_tokens, grown_tokens, Reader.least] at h₁ ⊢
    omega
  | .index ht _ hposition hu _ h => by
    have h₁ := hposition.length
    have h₂ := h.length
    simp only [ht, hu, List.length_cons, past_tokens, grown_tokens, Reader.least] at h₁ h₂ ⊢
    omega
  | .arguments ht _ harguments h => by
    have h₁ := harguments.length
    have h₂ := h.length
    simp only [ht, List.length_cons, past_tokens, grown_tokens, Reader.least] at h₁ h₂ ⊢
    omega
  | .number ht _ | .string ht _ | .boolean ht _ | .null ht _ | .identifier ht _ => by
    simp [ht, Reader.least]
  | .group ht _ h hu _ => by
    have h₁ := h.length
    simp only [ht, hu, List.length_cons, past_tokens, Reader.least] at h₁ ⊢
    omega
  | .array ht _ h => by
    have h₁ := h.length
    simp only [ht, List.length_cons, past_tokens, grown_tokens, Reader.least] at h₁ ⊢
    omega

theorem ReadsAll.length {close : Symbol} {s s' : ParserState} {es : List Expression} :
    ReadsAll close s es s' → s'.tokens.length + 1 ≤ s.tokens.length
  | .close ht _ => by simp [ht]
  | .last _ h _ ht _ => by
    have h₁ := h.length
    simp only [ht, List.length_cons, past_tokens, Reader.least] at h₁ ⊢
    omega
  | .more _ h ht _ hrest => by
    have h₁ := h.length
    have h₂ := hrest.length
    simp only [ht, List.length_cons, past_tokens, Reader.least] at h₁ h₂ ⊢
    omega

end

mutual

/-- Readers of expressions take tokens and make nodes, and do nothing else to a state. -/
theorem Reads.leads {r : Reader} {s s' : ParserState} {e : Expression} :
    Reads r s e s' → s.Leads s'
  | .assignment_plain h _ | .conditional_plain h _ | .unary_plain _ h | .trailing_plain h _
  | .head_new _ h | .head_primary _ h => h.leads
  | .assignment h ht _ _ hvalue => (h.leads.andPast ht).trans hvalue.leads.andGrown
  | .conditional h ht _ hyes hu _ hno =>
    (h.leads.andPast ht).trans ((hyes.leads.andPast hu).trans hno.leads.andGrown)
  | .binary h hclimb => h.leads.trans hclimb.leads
  | .climb_stop _ | .suffixes_stop _ => .refl
  | .climb_step ht _ _ hright hclimb => .past ht (hright.leads.andGrown.trans hclimb.leads)
  | .unary ht _ h => .past ht h.leads.andGrown
  | .trailing h ht _ => (h.leads.andPast ht).andGrown
  | .call h hsuffixes => h.leads.trans hsuffixes.leads
  | .construction ht _ h hcallee hu _ harguments =>
    .past ht (h.leads.trans ((hcallee.leads.andPast hu).trans harguments.leads.andGrown))
  | .construction_bare ht _ h hcallee _ => .past ht (h.leads.trans hcallee.leads.andGrown)
  | .member ht _ _ h => .past ht (.past (past_tokens _ _ _) (.grown h.leads))
  | .index ht _ hposition hu _ h =>
    .past ht ((hposition.leads.andPast hu).trans (.grown h.leads))
  | .arguments ht _ harguments h => .past ht (harguments.leads.trans (.grown h.leads))
  | .number ht _ | .string ht _ | .boolean ht _ | .null ht _ | .identifier ht _ =>
    .past ht (.grown .refl)
  | .group ht _ h hu _ => .past ht (h.leads.andPast hu)
  | .array ht _ h => .past ht h.leads.andGrown

theorem ReadsAll.leads {close : Symbol} {s s' : ParserState} {es : List Expression} :
    ReadsAll close s es s' → s.Leads s'
  | .close ht _ => .past ht .refl
  | .last _ h _ ht _ => h.leads.andPast ht
  | .more _ h ht _ hrest => (h.leads.andPast ht).trans hrest.leads

end

theorem Reads.consumes {s s' : ParserState} {e : Expression} (h : Reads .assignment s e s') :
    s.Consumes s' :=
  ⟨h.leads, h.length⟩

end Parse

/-! ## First tokens -/

/-- The kinds of token that a chain of members, positions and arguments can start with. -/
def TokenKind.startsChain : TokenKind → Bool
  | .number _ | .string .. | .identifier _ => true
  | .keyword k => k == .newWord || k == .trueWord || k == .falseWord || k == .nullWord
  | .symbol s => s == .leftParen || s == .leftBracket
  | _ => false

/-- The kinds of token that an expression can start with. -/
def TokenKind.startsExpression (k : TokenKind) : Bool :=
  k.startsChain || (UnaryOp.ofLeading? k).isSome

namespace Parse

open ParserState (kind?_of_tokens)

variable {s s' : ParserState} {e : Expression}

theorem startsChain_of_primary (h : Reads .primary s e s') :
    ∃ k, s.kind? = some k ∧ k.startsChain = true := by
  cases h with
  | number ht hk | string ht hk | null ht hk | identifier ht hk =>
    exact ⟨_, kind?_of_tokens ht, by rw [hk]; rfl⟩
  | boolean ht hk =>
    rename_i value
    exact ⟨_, kind?_of_tokens ht, by rw [hk]; cases value <;> rfl⟩
  | group ht hk | array ht hk => exact ⟨_, kind?_of_tokens ht, by rw [hk]; rfl⟩

theorem startsChain_of_head (h : Reads .head s e s') :
    ∃ k, s.kind? = some k ∧ k.startsChain = true := by
  cases h with
  | head_new hk _ => exact ⟨_, hk, rfl⟩
  | head_primary _ h => exact startsChain_of_primary h

theorem startsChain_of_trailing (h : Reads .trailing s e s') :
    ∃ k, s.kind? = some k ∧ k.startsChain = true := by
  cases h with
  | trailing_plain h _ | trailing h _ _ =>
    cases h with
    | call h _ => exact startsChain_of_head h

theorem startsExpression_of_binary {least : Nat} (h : Reads (.binary least) s e s') :
    ∃ k, s.kind? = some k ∧ k.startsExpression = true := by
  cases h with
  | binary h _ =>
    cases h with
    | unary_plain _ h =>
      obtain ⟨k, hk, hstart⟩ := startsChain_of_trailing h
      exact ⟨k, hk, by simp [TokenKind.startsExpression, hstart]⟩
    | unary ht hop _ =>
      exact ⟨_, kind?_of_tokens ht, by simp [TokenKind.startsExpression, hop]⟩

theorem startsExpression_of_assignment (h : Reads .assignment s e s') :
    ∃ k, s.kind? = some k ∧ k.startsExpression = true := by
  cases h with
  | assignment_plain h _ | assignment h _ _ _ _ =>
    cases h with
    | conditional_plain h _ | conditional h _ _ _ _ _ _ => exact startsExpression_of_binary h

/-- A token that starts a chain is no operator. -/
theorem ofLeading?_of_startsChain {k : TokenKind} (h : k.startsChain = true) :
    UnaryOp.ofLeading? k = none := by
  cases k with
  | keyword w => cases w <;> first | rfl | cases h
  | symbol y => cases y <;> first | rfl | cases h
  | _ => rfl

end Parse

end DecimalLift
