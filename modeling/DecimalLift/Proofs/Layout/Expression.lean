import DecimalLift.Proofs.Layout.Pieces
import DecimalLift.Proofs.Tree

/-!
# The text of an expression

Between the tokens of an expression stand blanks only where they are asked for. No two neighbours
run together all the same: an operator between operands has blanks on both sides, parentheses and
brackets run into nothing, an operator in front of its operand gets a blank where the operand would
make a longer operator of it, and a number stands in parentheses before a point.

* `Expression.Spelt` — the names, numbers and strings of one node are spelt as tokens.
* `Expression.TrailsOnce` — no operator stands behind another one of its kind.
* `Expression.Written` — the names, numbers and strings are spelt, only what can be assigned to is
  assigned to, and operators trail once.
* `Expression.goesOn` — the characters that an expression must not stand directly before.
* `spaced_spelt`, `spaced_pieces` — an expression is spaced in front of every other character.
* `settled_pieces` — the layout of an expression ends with a token.
-/

set_option autoImplicit false

namespace DecimalLift

open DecimalLift.Text
open Piece (Spaced Settled spaced_append symbol keyword comma separated parenthesized
  parenthesizedIf)

/-! ## What can be written -/

namespace Expression

/-- Whether the expression is an operator behind its operand. -/
def isTrailing : Expression → Bool
  | .unary _ op _ => op.isTrailing
  | _ => false

/-- No operator stands behind another one of its kind. -/
def TrailsOnce : Expression → Prop
  | .unary _ op operand => ¬(op.isTrailing = true ∧ operand.isTrailing = true)
  | _ => True

instance : DecidablePred TrailsOnce := fun e => by
  unfold TrailsOnce
  split <;> infer_instance

/-- What one node asks for if its text is to be read back. -/
def Written : Expression → Prop
  | .number _ raw => (TokenKind.number raw).Spelt
  | .string _ value quote raw =>
    (TokenKind.string value quote (raw.getD (Quoted.escape quote value))).Spelt
  | .identifier _ name => (TokenKind.identifier name).Spelt
  | .member _ _ property => (TokenKind.identifier property).Spelt
  | .binary _ op target _ => op.isAssignment = true → target.isAssignable = true
  | .unary _ op operand => op.isTrailing = true → operand.isTrailing = false
  | _ => True

/-- What one node asks for if its text is to have its tokens. -/
def Spelt : Expression → Prop
  | .number _ raw => (TokenKind.number raw).Spelt
  | .string _ value quote raw =>
    (TokenKind.string value quote (raw.getD (Quoted.escape quote value))).Spelt
  | .identifier _ name => (TokenKind.identifier name).Spelt
  | .member _ _ property => (TokenKind.identifier property).Spelt
  | _ => True

theorem TrailsOnce.written {n : Node} {op : UnaryOp} {operand : Expression}
    (h : (Expression.unary n op operand).TrailsOnce) : (Expression.unary n op operand).Written :=
  fun hop => Bool.eq_false_iff.2 fun hoperand => h ⟨hop, hoperand⟩

theorem Written.spelt {e : Expression} (h : e.Written) : e.Spelt := by
  cases e with
  | number | string | identifier | member => exact h
  | _ => trivial

/-- Characters that may stand right behind every expression. -/
def stops : List Char := [' ', '\n', ')', ']', ',', ';', '(', '[', '+', '-']

/-- The text does not start with a character that may not stand behind some expressions. -/
def MayFollow (tail : List Char) : Prop := Stops (fun c => !stops.contains c) tail

/-- Characters that an expression must not stand directly before. A point may follow only what can
stand before it without parentheses. -/
def goesOn (e : Expression) (c : Char) : Bool :=
  !stops.contains c && (c != '.' || (e.isNumber || e.precedence < Precedence.member))

end Expression

/-! ## Single tokens -/

/-- A token is spaced if what follows does not run into it. -/
theorem spaced_token {k : TokenKind} {tail : List Char} (hk : k.Spelt) (h : Stops k.runsInto tail) :
    Spaced [.token k] tail :=
  ⟨⟨hk, h⟩, trivial⟩

/-- Parentheses, brackets, braces and separators, which run into nothing. -/
def Symbol.isFence (s : Symbol) : Bool :=
  [Symbol.leftParen, .rightParen, .leftBracket, .rightBracket, .leftBrace, .rightBrace, .comma,
    .semicolon, .colon].contains s

theorem not_runsInto_of_isFence {s : Symbol} (hs : s.isFence = true) (c : Char) :
    (TokenKind.symbol s).runsInto c = false := by
  have hf : s.followers = [] ∧ s ≠ .dot ∧ s ≠ .slash := by
    cases s <;> first | decide | cases hs
  have hj : s.joins c = false := by
    cases hj : s.joins c with
    | false => rfl
    | true =>
      have := Symbol.mem_followers_of_joins hj
      rw [hf.1] at this
      cases this
  simp [TokenKind.runsInto, hj, hf.2.1, hf.2.2]

theorem stops_of_isFence {s : Symbol} (hs : s.isFence = true) (tail : List Char) :
    Stops (TokenKind.symbol s).runsInto tail :=
  fun c _ => not_runsInto_of_isFence hs c

/-- Every symbol may stand before a blank. -/
theorem not_runsInto_space (s : Symbol) : (TokenKind.symbol s).runsInto ' ' = false := by
  cases s <;> decide

/-- The kinds of token that an expression can end with, apart from closing symbols. -/
def TokenKind.endsOperand : TokenKind → Bool
  | .number _ | .string .. | .identifier _ | .keyword _ => true
  | .symbol s => s == .plusPlus || s == .minusMinus
  | _ => false

theorem eq_false_of_mem_stops {p : Char → Bool}
    (h : (Expression.stops.all fun c => !p c) = true) : ∀ c ∈ Expression.stops, p c = false := by
  intro c hc
  simpa using List.all_eq_true.1 h c hc

/-- What may stand behind an expression does not run into its last token. -/
theorem not_runsInto_of_mem_stops {k : TokenKind} (hk : k.endsOperand = true) :
    ∀ c ∈ Expression.stops, k.runsInto c = false := by
  cases k with
  | number raw => exact @eq_false_of_mem_stops Number.runsOn (by decide)
  | string value quote raw => exact fun _ _ => rfl
  | identifier name => exact @eq_false_of_mem_stops isNamePart (by decide)
  | keyword k => exact @eq_false_of_mem_stops isNamePart (by decide)
  | symbol s =>
    rcases (by simpa [TokenKind.endsOperand] using hk : s = .plusPlus ∨ s = .minusMinus) with
      rfl | rfl <;> exact eq_false_of_mem_stops (by decide)
  | _ => cases hk

/-! ## First tokens -/

theorem BinaryOp.precedence_lt_unary (op : BinaryOp) : op.precedence < Precedence.unary := by
  cases op <;> decide

/-- The kinds of token that an operand can start with when no operator stands before it. -/
def TokenKind.startsOperand : TokenKind → Bool
  | .number _ | .string .. | .identifier _ | .keyword _ => true
  | .symbol s => s == .leftParen || s == .leftBracket
  | _ => false

namespace Expression

theorem exists_first_parenthesizedIf {e : Expression} {wrap : Bool}
    (h : wrap = false → ∃ k ps, e.pieces = .token k :: ps ∧ k.startsOperand = true) :
    ∃ k ps, parenthesizedIf wrap e.pieces = .token k :: ps ∧ k.startsOperand = true := by
  cases wrap with
  | true => exact ⟨_, _, rfl, rfl⟩
  | false => exact h rfl

/-- What holds together at least as tightly as an operator behind its operand starts with no
operator. -/
theorem exists_first : ∀ {e : Expression}, Precedence.trailing ≤ e.precedence →
    ∃ k ps, e.pieces = .token k :: ps ∧ k.startsOperand = true
  | .number .., _ => ⟨_, _, by rw [pieces], rfl⟩
  | .string .., _ | .boolean .., _ | .null .., _ | .identifier .., _ | .array .., _
  | .construct .., _ => ⟨_, _, by rw [pieces]; rfl, rfl⟩
  | .binary _ op _ _, h => by
    have hlt := op.precedence_lt_unary
    simp only [precedence, Precedence.trailing, Precedence.unary] at h hlt
    omega
  | .unary _ op operand, h => by
    by_cases ht : op.isTrailing = true
    · obtain ⟨k, ps, hps, hk⟩ := @exists_first_parenthesizedIf operand
        (operand.precedence < Precedence.trailing)
        fun hw => exists_first (Nat.le_of_not_lt (of_decide_eq_false hw))
      refine ⟨k, ps ++ [.token op.token], ?_, hk⟩
      rw [pieces, if_pos ht, hps, List.cons_append]
    · simp only [precedence, ht] at h
      exact absurd h (by decide)
  | .call _ callee arguments, _ => by
    obtain ⟨k, ps, hps, hk⟩ := @exists_first_parenthesizedIf callee
      (callee.precedence < Precedence.member)
      fun hw => exists_first (Nat.le_trans (by decide) (Nat.le_of_not_lt (of_decide_eq_false hw)))
    exact ⟨k, ps ++ parenthesized (separated (listPieces arguments)), by
      rw [pieces, hps, List.cons_append], hk⟩
  | .member _ object property, _ => by
    obtain ⟨k, ps, hps, hk⟩ := @exists_first_parenthesizedIf object
      (object.isNumber || object.precedence < Precedence.member)
      fun hw => exists_first (Nat.le_trans (by decide)
        (Nat.le_of_not_lt (of_decide_eq_false (Bool.or_eq_false_iff.1 hw).2)))
    exact ⟨k, ps ++ [symbol .dot, .name property], by rw [pieces, hps, List.cons_append], hk⟩
  | .index _ object position, _ => by
    obtain ⟨k, ps, hps, hk⟩ := @exists_first_parenthesizedIf object
      (object.precedence < Precedence.member)
      fun hw => exists_first (Nat.le_trans (by decide) (Nat.le_of_not_lt (of_decide_eq_false hw)))
    exact ⟨k, ps ++ symbol .leftBracket :: position.pieces ++ [symbol .rightBracket], by
      rw [pieces, hps, List.cons_append, List.cons_append], hk⟩
  | .conditional .., h => by
    simp only [precedence] at h
    exact absurd h (by decide)

/-- Only an operator before its operand is as tight as a unary expression and no tighter. -/
theorem trailing_le_precedence {e : Expression}
    (h : ¬∃ n op operand, e = .unary n op operand ∧ op.isTrailing = false)
    (hle : Precedence.unary ≤ e.precedence) : Precedence.trailing ≤ e.precedence := by
  cases e with
  | binary n op left right => exact absurd op.precedence_lt_unary (Nat.not_lt.2 hle)
  | conditional => exact absurd hle (by simp only [precedence]; decide)
  | unary n op operand =>
    have hop : op.isTrailing = true := by
      cases hop : op.isTrailing with
      | true => rfl
      | false => exact absurd ⟨n, op, operand, rfl, hop⟩ h
    simp only [precedence, hop]
    decide
  | _ => simp only [precedence]; decide

end Expression

/-- The characters that can make a longer symbol of an operator before its operand, or of an opening
angle. -/
def operatorChars : List Char := ['=', '+', '-', '<']

theorem not_joins {s : Symbol} (hs : (s.followers.all fun c => operatorChars.contains c) = true)
    {c : Char} (hc : c ∉ operatorChars) : s.joins c = false := by
  cases hj : s.joins c with
  | false => rfl
  | true =>
    have hmem := List.all_eq_true.1 hs c (Symbol.mem_followers_of_joins hj)
    exact absurd (List.contains_iff_mem.1 hmem) hc

theorem not_runsInto_leading {op : UnaryOp} (hop : op ≠ .typeOf) {c : Char}
    (hc : c ∉ operatorChars) : op.token.runsInto c = false := by
  have hsub : ∃ s, op.token = .symbol s ∧ s ≠ .dot ∧ s ≠ .slash ∧
      (s.followers.all fun c => operatorChars.contains c) = true := by
    cases op with
    | typeOf => exact absurd rfl hop
    | _ => exact ⟨_, rfl, by decide⟩
  obtain ⟨s, hs, hdot, hslash, hsub⟩ := hsub
  simp [hs, TokenKind.runsInto, not_joins hsub hc, hdot, hslash]

/-- A token that starts an operand starts with none of those characters. -/
theorem not_mem_operatorChars {k : TokenKind} (hk : k.Spelt) (hs : k.startsOperand = true)
    {c : Char} {cs : List Char} (hc : k.text.toList = c :: cs) : c ∉ operatorChars := by
  intro hmem
  -- the scanner finds a symbol where such a character stands
  have hsymbol : scanToken (c :: cs) = scanSymbol c cs := by
    simp only [operatorChars, List.mem_cons, List.not_mem_nil, or_false] at hmem
    rcases hmem with rfl | rfl | rfl | rfl <;> rfl
  have hscan := @scanToken_spelt k [] hk (stops_nil _)
  rw [List.append_nil, hc, hsymbol, scanSymbol] at hscan
  split at hscan
  · rename_i s _
    have hkind : k = .symbol s := (Except.ok.inj (congrArg Scan.outcome hscan)).symm
    subst hkind
    rcases (by simpa [TokenKind.startsOperand] using hs : s = .leftParen ∨ s = .leftBracket) with
      rfl | rfl <;> cases hc <;> revert hmem <;> decide
  · cases hscan

/-- Two operators in a row stand apart if they would be read as one. -/
theorem not_runsInto_leading_leading {op inner : UnaryOp} {n : Node} {e : Expression} {c : Char}
    {cs : List Char} (hinner : inner.isTrailing = false) (hop : op.isTrailing = false)
    (h : Expression.needsSpace op (.unary n inner e) = false)
    (hc : inner.token.text.toList = c :: cs) : op.token.runsInto c = false := by
  cases op <;> cases inner <;> simp [Expression.needsSpace, UnaryOp.isTrailing] at h hop hinner <;>
    cases hc <;> decide

/-! ## Whole expressions -/

/-- The first character of a layout decides whether it runs into what stands before. -/
theorem stops_first {k : TokenKind} {ps : List Piece} {tail : List Char} (hk : k.Spelt)
    {p : Char → Bool} (h : ∀ c cs, k.text.toList = c :: cs → p c = false) :
    Stops p ((Piece.token k :: ps).flatMap Piece.chars ++ tail) := by
  obtain ⟨c, cs, hc, -⟩ := exists_text_of_spelt hk
  rw [List.flatMap_cons, Piece.chars, hc]
  exact stops_cons.2 (h c cs hc)

section

variable {e : Expression} {tail : List Char}

theorem goesOn_eq_false {c : Char} : e.goesOn c = false ↔
    c ∈ Expression.stops ∨ c = '.' ∧ e.isNumber = false ∧ Precedence.member ≤ e.precedence := by
  by_cases hc : c ∈ Expression.stops <;> simp [Expression.goesOn, hc]

theorem stops_goesOn {c : Char} (hc : c ∈ Expression.stops) (cs : List Char) :
    Stops e.goesOn (c :: cs) :=
  stops_cons.2 (goesOn_eq_false.2 (Or.inl hc))

theorem mayFollow_cons {c : Char} (hc : c ∈ Expression.stops) (cs : List Char) :
    Expression.MayFollow (c :: cs) :=
  stops_cons.2 (by rw [List.contains_iff_mem.2 hc]; rfl)

theorem mem_stops_of_mayFollow (h : Expression.MayFollow tail) :
    ∀ c ∈ tail.head?, c ∈ Expression.stops := by
  intro c hc
  have hmem : Expression.stops.contains c = true := by simpa using h c hc
  exact List.contains_iff_mem.1 hmem

theorem stops_goesOn_of_mayFollow (h : Expression.MayFollow tail) : Stops e.goesOn tail :=
  fun c hc => goesOn_eq_false.2 (Or.inl (mem_stops_of_mayFollow h c hc))

/-- Behind a loose expression stands what may stand behind every expression. -/
theorem stops_goesOn_of_loose (hloose : e.precedence < Precedence.member)
    (h : Stops e.goesOn tail) (e' : Expression) : Stops e'.goesOn tail := by
  intro c hc
  rcases goesOn_eq_false.1 (h c hc) with hc | ⟨-, -, hle⟩
  · exact goesOn_eq_false.2 (Or.inl hc)
  · exact absurd hloose (Nat.not_lt.2 hle)

/-- A token at the end of an expression is spaced wherever the expression may end. -/
theorem spaced_last {k : TokenKind} (hk : k.Spelt) (hend : k.endsOperand = true)
    (hdot : e.isNumber = false → Precedence.member ≤ e.precedence → k.runsInto '.' = false)
    (h : Stops e.goesOn tail) : Spaced [.token k] tail := by
  refine spaced_token hk fun c hc => ?_
  rcases goesOn_eq_false.1 (h c hc) with hc | ⟨rfl, hnumber, hle⟩
  · exact not_runsInto_of_mem_stops hend c hc
  · exact hdot hnumber hle

theorem spaced_fence {s : Symbol} (hs : s.isFence = true) : Spaced [symbol s] tail :=
  spaced_token trivial (stops_of_isFence hs tail)

theorem spaced_parenthesized {ps : List Piece} (h : Spaced ps (')' :: tail)) :
    Spaced (parenthesized ps) tail :=
  ⟨⟨trivial, stops_of_isFence rfl _⟩, spaced_append.2 ⟨h, spaced_fence rfl⟩⟩

/-- An operand, with parentheses or without. -/
theorem spaced_parenthesizedIf {wrap : Bool}
    (he : ∀ {tail}, Stops e.goesOn tail → Spaced e.pieces tail)
    (h : wrap = false → Stops e.goesOn tail) : Spaced (parenthesizedIf wrap e.pieces) tail := by
  cases wrap with
  | true => exact spaced_parenthesized (he (stops_goesOn (by decide) _))
  | false => exact he (h rfl)

/-- An operator between two operands. -/
theorem spaced_between {s : Symbol} {ps : List Piece} (h : Spaced ps tail) :
    Spaced ([.space, symbol s, .space] ++ ps) tail :=
  ⟨trivial, ⟨trivial, stops_cons.2 (not_runsInto_space s)⟩, trivial, h⟩

/-- The point and the name behind an object. -/
theorem spaced_property {property : String} (h : Spaced [.name property] tail) :
    Spaced [symbol .dot, .name property] tail := by
  refine ⟨⟨trivial, stops_first h.1.1 fun c cs hc => ?_⟩, h⟩
  have hname : isName property = true := h.1.1.1
  replace hc : property.toList = c :: cs := hc
  have hstart : isNameStart c = true := by
    unfold isName at hname
    rw [hc] at hname
    exact (Bool.and_eq_true_iff.1 hname).1
  have hdigit : c.isDigit = false := by
    cases hd : c.isDigit with
    | false => rfl
    | true =>
      rw [(not_isNameStart (Or.inl hd)).2] at hstart
      cases hstart
  have hj : Symbol.joins .dot c = false := by
    cases hj : Symbol.joins .dot c with
    | false => rfl
    | true => cases (Symbol.mem_followers_of_joins hj : c ∈ [])
  simp [TokenKind.runsInto, hj, hdigit]

end

theorem UnaryOp.eq_of_isTrailing {op : UnaryOp} (h : op.isTrailing = true) :
    op = .postIncrement ∨ op = .postDecrement := by
  cases op <;> first | exact Or.inl rfl | exact Or.inr rfl | cases h

/-- An operator before its operand. -/
theorem spaced_leading {op : UnaryOp} {operand : Expression} {tail : List Char}
    (hop : op.isTrailing = false) (hps : Spaced
      (parenthesizedIf (operand.precedence < Precedence.unary) operand.pieces) tail) :
    Spaced (.token op.token :: (if Expression.needsSpace op operand then [.space] else [])
      ++ parenthesizedIf (operand.precedence < Precedence.unary) operand.pieces) tail := by
  have hspelt : op.token.Spelt := by cases op <;> trivial
  by_cases hspace : Expression.needsSpace op operand = true
  · rw [if_pos hspace]
    exact ⟨⟨hspelt, stops_cons.2 (by cases op <;> decide)⟩, trivial, hps⟩
  · have htype : op ≠ .typeOf := by
      rintro rfl
      exact hspace rfl
    rw [if_neg hspace, List.cons_append, List.nil_append]
    refine ⟨⟨hspelt, ?_⟩, hps⟩
    -- the operand starts with another operator, or with a token that starts an operand
    by_cases hfirst : ∃ n inner e, operand = .unary n inner e ∧ inner.isTrailing = false
    · obtain ⟨n, inner, e, rfl, hinner⟩ := hfirst
      have hpieces : parenthesizedIf
          ((Expression.unary n inner e).precedence < Precedence.unary)
          (Expression.unary n inner e).pieces = (Expression.unary n inner e).pieces := by
        simp [Expression.precedence, hinner, parenthesizedIf]
      rw [hpieces, Expression.pieces, if_neg (by simp [hinner])]
      exact stops_first (by cases inner <;> trivial) fun c cs =>
        not_runsInto_leading_leading hinner hop (Bool.not_eq_true _ ▸ hspace)
    · obtain ⟨k, ps, hk, hstart⟩ := @Expression.exists_first_parenthesizedIf operand
        (operand.precedence < Precedence.unary) fun hw => Expression.exists_first
          (Expression.trailing_le_precedence hfirst
            (Nat.le_of_not_lt (of_decide_eq_false hw)))
      rw [hk] at hps ⊢
      exact stops_first hps.1.1 fun c cs hc =>
        not_runsInto_leading htype (not_mem_operatorChars hps.1.1 hstart hc)

mutual

/-- **No token of an expression runs into the next one**, nor into what follows the expression,
unless that goes on with it. -/
theorem spaced_spelt : ∀ {e : Expression} {tail : List Char}, e.All Expression.Spelt →
    Stops e.goesOn tail → Spaced e.pieces tail
  | .number .., _, he, h => spaced_last he rfl (fun hn => by cases hn) h
  | .string .., _, he, h => spaced_last he rfl (fun _ _ => rfl) h
  | .boolean .., _, _, h =>
    spaced_last trivial rfl (fun _ _ => (by decide : isNamePart '.' = false)) h
  | .null _, _, _, h => spaced_last trivial rfl (fun _ _ => (by decide : isNamePart '.' = false)) h
  | .identifier .., _, he, h =>
    spaced_last he rfl (fun _ _ => (by decide : isNamePart '.' = false)) h
  | .binary n op left right, tail, he, h => by
    rw [Expression.pieces, List.append_assoc]
    refine spaced_append.2 ⟨?_, spaced_between ?_⟩
    · exact spaced_parenthesizedIf (spaced_spelt he.2.1) fun _ => stops_goesOn (by decide) _
    · exact spaced_parenthesizedIf (spaced_spelt he.2.2) fun _ =>
        stops_goesOn_of_loose (Nat.lt_trans op.precedence_lt_unary (by decide)) h _
  | .unary n op operand, tail, he, h => by
    have hloose : (Expression.unary n op operand).precedence < Precedence.member := by
      simp only [Expression.precedence]
      split <;> decide
    rw [Expression.pieces]
    split
    · rename_i hop
      refine spaced_append.2 ⟨spaced_parenthesizedIf (spaced_spelt he.2) fun _ => ?_, ?_⟩
      · rcases UnaryOp.eq_of_isTrailing hop with rfl | rfl <;> exact stops_goesOn (by decide) _
      · rcases UnaryOp.eq_of_isTrailing hop with rfl | rfl <;>
          exact spaced_last trivial rfl (fun _ hle => absurd hloose (Nat.not_lt.2 hle)) h
    · rename_i hop
      exact spaced_leading (Bool.not_eq_true _ ▸ hop) (spaced_parenthesizedIf (spaced_spelt he.2)
        fun _ => stops_goesOn_of_loose hloose h _)
  | .call n callee arguments, tail, he, h => by
    rw [Expression.pieces]
    refine spaced_append.2 ⟨?_, spaced_parenthesized (spaced_separated he.2.2 (by decide) _)⟩
    exact spaced_parenthesizedIf (spaced_spelt he.2.1) fun _ => stops_goesOn (by decide) _
  | .construct n callee arguments, tail, he, h => by
    rw [Expression.pieces, List.append_assoc]
    refine ⟨⟨trivial, stops_cons.2 (by decide)⟩, trivial, ?_⟩
    show Spaced (parenthesizedIf _ callee.pieces ++ parenthesized _) tail
    refine spaced_append.2 ⟨?_, spaced_parenthesized (spaced_separated he.2.2 (by decide) _)⟩
    exact spaced_parenthesizedIf (spaced_spelt he.2.1) fun _ => stops_goesOn (by decide) _
  | .member n object property, tail, he, h => by
    rw [Expression.pieces]
    refine spaced_append.2 ⟨?_, spaced_property ?_⟩
    · refine spaced_parenthesizedIf (spaced_spelt he.2) fun hw => ?_
      rw [Bool.or_eq_false_iff, decide_eq_false_iff_not, Nat.not_lt] at hw
      exact stops_cons.2 (goesOn_eq_false.2 (Or.inr ⟨rfl, hw⟩))
    · exact spaced_last he.1 rfl (fun _ _ => (by decide : isNamePart '.' = false)) h
  | .index n object position, tail, he, h => by
    rw [Expression.pieces, List.append_assoc]
    refine spaced_append.2 ⟨?_, ⟨trivial, stops_of_isFence rfl _⟩,
      spaced_append.2 ⟨spaced_spelt he.2.2 (stops_goesOn (by decide) _), spaced_fence rfl⟩⟩
    exact spaced_parenthesizedIf (spaced_spelt he.2.1) fun _ => stops_goesOn (by decide) _
  | .conditional n condition yes no, tail, he, h => by
    rw [Expression.pieces, List.append_assoc, List.append_assoc, List.append_assoc]
    refine spaced_append.2 ⟨?_, spaced_between (spaced_append.2 ⟨?_, spaced_between ?_⟩)⟩
    · exact spaced_parenthesizedIf (spaced_spelt he.2.1) fun _ => stops_goesOn (by decide) _
    · exact spaced_parenthesizedIf (spaced_spelt he.2.2.1) fun _ => stops_goesOn (by decide) _
    · exact spaced_parenthesizedIf (spaced_spelt he.2.2.2) fun _ =>
        stops_goesOn_of_loose (by simp only [Expression.precedence]; decide) h _
  | .array n elements, tail, he, h => by
    rw [Expression.pieces]
    exact ⟨⟨trivial, stops_of_isFence rfl _⟩,
      spaced_append.2 ⟨spaced_separated he.2 (by decide) _, spaced_fence rfl⟩⟩

theorem spaced_separated : ∀ {es : List Expression} {c : Char},
    Expression.AllOf Expression.Spelt es → c ∈ Expression.stops → ∀ cs,
      Spaced (separated (Expression.listPieces es)) (c :: cs)
  | [], _, _, _, _ => trivial
  | [e], c, he, hc, cs => spaced_parenthesizedIf (spaced_spelt he.1) fun _ => stops_goesOn hc _
  | e :: e' :: es, c, he, hc, cs => by
    show Spaced (parenthesizedIf _ e.pieces ++ comma ++
      separated (Expression.listPieces (e' :: es))) (c :: cs)
    rw [List.append_assoc]
    refine spaced_append.2 ⟨?_, ⟨trivial, stops_of_isFence rfl _⟩, trivial, ?_⟩
    · exact spaced_parenthesizedIf (spaced_spelt he.1) fun _ => stops_goesOn (by decide) _
    · exact spaced_separated he.2 hc cs

end

theorem spaced_pieces {e : Expression} {tail : List Char} (he : e.All Expression.Written)
    (h : Stops e.goesOn tail) : Spaced e.pieces tail :=
  spaced_spelt (he.mono fun _ => Expression.Written.spelt) h

/-! ## The end of a layout -/

theorem settled_parenthesized (ps : List Piece) : Settled (parenthesized ps) :=
  ((Piece.settled_symbol _).append_left ps).cons _

theorem settled_parenthesizedIf {ps : List Piece} (h : Settled ps) (wrap : Bool) :
    Settled (parenthesizedIf wrap ps) := by
  cases wrap with
  | true => exact settled_parenthesized ps
  | false => exact h

/-- The layout of an expression ends with a token. -/
theorem settled_pieces : ∀ e : Expression, Settled e.pieces
  | .number .. | .string .. | .boolean .. | .null .. | .identifier .. => by
    rw [Expression.pieces]
    exact Piece.settled_token rfl
  | .binary _ _ _ right => by
    rw [Expression.pieces]
    exact (settled_parenthesizedIf (settled_pieces right) _).append_left _
  | .unary _ op operand => by
    rw [Expression.pieces]
    split
    · exact (Piece.settled_token (by cases op <;> rfl)).append_left _
    · exact (settled_parenthesizedIf (settled_pieces operand) _).append_left _
  | .call .. | .construct .. => by
    rw [Expression.pieces]
    exact (settled_parenthesized _).append_left _
  | .member .. => by
    rw [Expression.pieces]
    exact ((Piece.settled_name _).cons _).append_left _
  | .index .. | .array .. => by
    rw [Expression.pieces]
    exact (Piece.settled_symbol _).append_left _
  | .conditional _ _ _ no => by
    rw [Expression.pieces]
    exact (settled_parenthesizedIf (settled_pieces no) _).append_left _

theorem settled_separated : ∀ (e : Expression) (es : List Expression),
    Settled (separated (Expression.listPieces (e :: es)))
  | e, [] => settled_parenthesizedIf (settled_pieces e) _
  | _, e' :: es => (settled_separated e' es).append_left _

theorem unbroken_separated (es : List Expression) :
    Piece.Unbroken (separated (Expression.listPieces es)) := by
  cases es with
  | nil => rfl
  | cons e es => exact (settled_separated e es).unbroken

end DecimalLift
