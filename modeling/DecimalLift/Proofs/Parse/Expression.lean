import DecimalLift.Proofs.Parse.Grammar

/-!
# Expressions are read by their grammar

* `sound` — what a reader returns, the relation `Reads` derives.
* `complete` — what the relation derives, the reader returns, with any budget of sixteen steps for
  each token taken and a few for the reader itself.
* `withSteps_run_eq_ok` — the budget of each reader is always enough, so it is the relation.
-/

set_option autoImplicit false

namespace DecimalLift.Parse

open ParserState (past_tokens grown_tokens kind?_of_tokens here_of_tokens exists_of_kind?
  exists_of_bind_kind? isAt_eq_true isAt_eq_false)

/-! ## What the readers return is derived -/

theorem exists_of_trailingOp? {s : ParserState} {op : UnaryOp} (h : trailingOp? s = some op) :
    ∃ t ts, s.tokens = t :: ts := by
  unfold trailingOp? at h
  cases hs : s.tokens with
  | nil => rw [hs] at h; cases h
  | cons t ts => exact ⟨t, ts, rfl⟩

/-- The reader itself, with a number of steps. -/
def run : Reader → Nat → Parse Expression
  | .assignment, n => assignmentLevel n
  | .conditional, n => conditionalLevel n
  | .binary least, n => binaryLevel n least
  | .climb least left, n => climb n least left
  | .unary, n => unaryLevel n
  | .trailing, n => trailingLevel n
  | .call, n => callLevel n
  | .head, n => do if ← at? (.keyword .newWord) then construction n else primaryLevel n
  | .construction, n => construction n
  | .suffixes calls first, n => suffixes n calls first
  | .primary, n => primaryLevel n

theorem run_head (n : Nat) (s : ParserState) : run .head n s =
    if s.kind? = some (.keyword .newWord) then construction n s else primaryLevel n s := by
  show (at? (.keyword .newWord) >>= fun b => if b then construction n else primaryLevel n) s = _
  rw [at?_bind]
  by_cases h : s.kind? = some (.keyword .newWord)
  · rw [if_pos ((isAt_eq_true (by decide)).2 h), if_pos h]
  · rw [(isAt_eq_false (by decide)).2 h, if_neg h]
    rfl

/-- What the readers return with `n` steps is derived. -/
structure Sound (n : Nat) : Prop where
  reads : ∀ (r : Reader) {s s' : ParserState} {e : Expression}, run r n s = .ok e s' →
    Reads r s e s'
  readsAll : ∀ {close : Symbol} {context : String} {s s' : ParserState} {es : List Expression},
    elements n close context s = .ok es s' → ReadsAll close s es s'

variable {n : Nat} {s s' : ParserState} {e : Expression}

theorem assignment_of_ok (ih : Sound n) (h : assignmentLevel (n + 1) s = .ok e s') :
    Reads .assignment s e s' := by
  unfold assignmentLevel at h
  obtain ⟨target, s₁, htarget, h⟩ := bind_eq_ok.1 h
  replace htarget := ih.reads .conditional htarget
  rw [peekKind?_bind] at h
  cases hop : s₁.kind?.bind BinaryOp.ofAssignment? with
  | none =>
    rw [hop] at h
    obtain ⟨rfl, rfl⟩ := pure_eq_ok.1 h
    exact .assignment_plain htarget hop
  | some op =>
    rw [hop] at h
    obtain ⟨t, ts, ht, hop⟩ := exists_of_bind_kind? hop
    simp only at h
    split at h
    · rename_i hassign
      rw [advance?_bind ht] at h
      obtain ⟨value, s₂, hvalue, h⟩ := bind_eq_ok.1 h
      rw [node_bind] at h
      obtain ⟨rfl, rfl⟩ := pure_eq_ok.1 h
      exact .assignment htarget ht hop hassign (ih.reads .assignment hvalue)
    · exact absurd h throw_ne_ok

theorem conditional_of_ok (ih : Sound n) (h : conditionalLevel (n + 1) s = .ok e s') :
    Reads .conditional s e s' := by
  unfold conditionalLevel at h
  obtain ⟨condition, s₁, hcondition, h⟩ := bind_eq_ok.1 h
  replace hcondition := ih.reads (.binary _) hcondition
  rcases (accept_bind_eq_ok (by decide)).1 h with ⟨hq, h⟩ | ⟨t, ts, ht, hq, h⟩
  · obtain ⟨rfl, rfl⟩ := pure_eq_ok.1 h
    exact .conditional_plain hcondition hq
  · obtain ⟨yes, s₂, hyes, h⟩ := bind_eq_ok.1 h
    obtain ⟨u, us, hu, hcolon, h⟩ := (expect_bind_eq_ok (by decide)).1 h
    obtain ⟨no, s₃, hno, h⟩ := bind_eq_ok.1 h
    rw [node_bind] at h
    obtain ⟨rfl, rfl⟩ := pure_eq_ok.1 h
    exact .conditional hcondition ht hq (ih.reads .assignment hyes) hu hcolon
      (ih.reads .assignment hno)

theorem climb_of_ok {least : Nat} {left : Expression} (ih : Sound n)
    (h : climb (n + 1) least left s = .ok e s') : Reads (.climb least left) s e s' := by
  unfold climb at h
  rw [peekKind?_bind] at h
  cases hop : s.kind?.bind BinaryOp.ofOperand? with
  | none =>
    rw [hop] at h
    obtain ⟨rfl, rfl⟩ := pure_eq_ok.1 h
    exact .climb_stop (by rw [hop]; intro op hmem; cases hmem)
  | some op =>
    rw [hop] at h
    simp only at h
    split at h
    · rename_i hlt
      obtain ⟨rfl, rfl⟩ := pure_eq_ok.1 h
      exact .climb_stop (by rw [hop]; intro op hmem; cases hmem; exact hlt)
    · rename_i hlt
      obtain ⟨t, ts, ht, hop⟩ := exists_of_bind_kind? hop
      rw [advance?_bind ht] at h
      obtain ⟨right, s₁, hright, h⟩ := bind_eq_ok.1 h
      rw [node_bind] at h
      exact .climb_step ht hop (Nat.le_of_not_lt hlt) (ih.reads (.binary _) hright)
        (ih.reads (.climb _ _) h)

theorem unary_of_ok (ih : Sound n) (h : unaryLevel (n + 1) s = .ok e s') :
    Reads .unary s e s' := by
  unfold unaryLevel at h
  rw [peekKind?_bind] at h
  cases hop : s.kind?.bind UnaryOp.ofLeading? with
  | none =>
    rw [hop] at h
    exact .unary_plain hop (ih.reads .trailing h)
  | some op =>
    rw [hop] at h
    obtain ⟨t, ts, ht, hop⟩ := exists_of_bind_kind? hop
    simp only at h
    rw [here_bind, advance?_bind ht, here_of_tokens ht] at h
    obtain ⟨operand, s₁, hoperand, h⟩ := bind_eq_ok.1 h
    rw [nodeFrom_bind] at h
    obtain ⟨rfl, rfl⟩ := pure_eq_ok.1 h
    exact .unary ht hop (ih.reads .unary hoperand)

theorem trailing_of_ok (ih : Sound n) (h : trailingLevel (n + 1) s = .ok e s') :
    Reads .trailing s e s' := by
  unfold trailingLevel at h
  obtain ⟨operand, s₁, hoperand, h⟩ := bind_eq_ok.1 h
  replace hoperand := ih.reads .call hoperand
  rw [peek?_bind] at h
  cases hop : trailingOp? s₁ with
  | none =>
    unfold trailingOp? at hop
    rw [hop] at h
    obtain ⟨rfl, rfl⟩ := pure_eq_ok.1 h
    exact .trailing_plain hoperand hop
  | some op =>
    obtain ⟨t, ts, ht⟩ := exists_of_trailingOp? hop
    unfold trailingOp? at hop
    rw [hop] at h
    simp only at h
    rw [advance?_bind ht, nodeFrom_bind] at h
    obtain ⟨rfl, rfl⟩ := pure_eq_ok.1 h
    exact .trailing hoperand ht hop

theorem head_of_ok {f : Expression → Parse Expression} (ih : Sound n)
    (h : (do let head ← if ← at? (.keyword .newWord) then construction n else primaryLevel n
             f head) s = .ok e s') :
    ∃ first s₁, Reads .head s first s₁ ∧ f first s₁ = .ok e s' := by
  rcases (at?_ite_eq_ok (by decide)).1 h with ⟨hnew, h⟩ | ⟨hnew, h⟩ <;>
    obtain ⟨first, s₁, hfirst, h⟩ := bind_eq_ok.1 h
  · exact ⟨first, s₁, .head_new hnew (ih.reads .construction hfirst), h⟩
  · exact ⟨first, s₁, .head_primary hnew (ih.reads .primary hfirst), h⟩

theorem call_of_ok (ih : Sound n) (h : callLevel (n + 1) s = .ok e s') : Reads .call s e s' := by
  unfold callLevel at h
  obtain ⟨first, s₁, hfirst, h⟩ := head_of_ok ih h
  exact .call hfirst (ih.reads (.suffixes _ _) h)

theorem construction_of_ok (ih : Sound n) (h : construction (n + 1) s = .ok e s') :
    Reads .construction s e s' := by
  unfold construction at h
  rw [here_bind] at h
  obtain ⟨t, ts, ht, hnew, h⟩ := (expect_bind_eq_ok (by decide)).1 h
  obtain ⟨first, s₁, hfirst, h⟩ := head_of_ok ih h
  obtain ⟨callee, s₂, hcallee, h⟩ := bind_eq_ok.1 h
  replace hcallee := ih.reads (.suffixes _ _) hcallee
  rw [here_of_tokens ht] at h
  rcases (accept_bind_eq_ok (by decide)).1 h with ⟨hparen, h⟩ | ⟨u, us, hu, hparen, h⟩
  · obtain ⟨rfl, rfl⟩ := pure_eq_ok.1 h
    exact .construction_bare ht hnew hfirst hcallee hparen
  · obtain ⟨arguments, s₃, harguments, h⟩ := bind_eq_ok.1 h
    obtain ⟨rfl, rfl⟩ := pure_eq_ok.1 h
    exact .construction ht hnew hfirst hcallee hu hparen (ih.readsAll harguments)

theorem suffixes_of_ok {calls : Bool} {first : Expression} (ih : Sound n)
    (h : suffixes (n + 1) calls first s = .ok e s') : Reads (.suffixes calls first) s e s' := by
  unfold suffixes at h
  rw [peekKind?_bind] at h
  cases hk : s.kind? with
  | none =>
    rw [hk] at h
    obtain ⟨rfl, rfl⟩ := pure_eq_ok.1 h
    exact .suffixes_stop (by simp [endsChain, hk])
  | some k =>
    rw [hk] at h
    obtain ⟨t, ts, ht, hkind⟩ := exists_of_kind? hk
    cases k with
    | symbol mark =>
      cases mark with
      | dot =>
        simp only at h
        rw [advance?_bind ht] at h
        obtain ⟨u, us, property, hu, hproperty, h⟩ := expectIdentifier_bind_eq_ok.1 h
        rw [nodeFrom_bind] at h
        exact .member (ht.trans (congrArg _ hu)) hkind hproperty (ih.reads (.suffixes _ _) h)
      | leftBracket =>
        simp only at h
        rw [advance?_bind ht] at h
        obtain ⟨position, s₁, hposition, h⟩ := bind_eq_ok.1 h
        obtain ⟨u, us, hu, hclose, h⟩ := (expect_bind_eq_ok (by decide)).1 h
        rw [nodeFrom_bind] at h
        exact .index ht hkind (ih.reads .assignment hposition) hu hclose
          (ih.reads (.suffixes _ _) h)
      | leftParen =>
        cases calls with
        | true =>
          simp only [if_true] at h
          rw [advance?_bind ht] at h
          obtain ⟨arguments, s₁, harguments, h⟩ := bind_eq_ok.1 h
          rw [nodeFrom_bind] at h
          exact .arguments ht hkind (ih.readsAll harguments) (ih.reads (.suffixes _ _) h)
        | false =>
          obtain ⟨rfl, rfl⟩ := pure_eq_ok.1 h
          exact .suffixes_stop (by simp [endsChain, hk])
      | _ =>
        obtain ⟨rfl, rfl⟩ := pure_eq_ok.1 h
        exact .suffixes_stop (by simp [endsChain, hk])
    | _ =>
      obtain ⟨rfl, rfl⟩ := pure_eq_ok.1 h
      exact .suffixes_stop (by simp [endsChain, hk])

theorem elements_of_ok {close : Symbol} {context : String} {es : List Expression} (ih : Sound n)
    (h : elements (n + 1) close context s = .ok es s') : ReadsAll close s es s' := by
  have hend : TokenKind.symbol close ≠ .endOfFile := by intro heq; cases heq
  unfold elements at h
  rcases (at?_ite_eq_ok hend).1 h with ⟨-, h⟩ | ⟨hclose, h⟩
  · obtain ⟨t, ts, ht, hk, h⟩ := (expect_bind_eq_ok hend).1 h
    obtain ⟨rfl, rfl⟩ := pure_eq_ok.1 h
    exact .close ht hk
  · obtain ⟨first, s₁, hfirst, h⟩ := bind_eq_ok.1 h
    replace hfirst := ih.reads .assignment hfirst
    rcases (accept_bind_eq_ok (by decide)).1 h with ⟨hcomma, h⟩ | ⟨t, ts, ht, hcomma, h⟩
    · obtain ⟨t, ts, ht, hk, h⟩ := (expect_bind_eq_ok hend).1 h
      obtain ⟨rfl, rfl⟩ := pure_eq_ok.1 h
      exact .last hclose hfirst hcomma ht hk
    · obtain ⟨rest, s₂, hrest, h⟩ := bind_eq_ok.1 h
      obtain ⟨rfl, rfl⟩ := pure_eq_ok.1 h
      exact .more hclose hfirst ht hcomma (ih.readsAll hrest)

theorem primary_of_ok (ih : Sound n) (h : primaryLevel (n + 1) s = .ok e s') :
    Reads .primary s e s' := by
  unfold primaryLevel at h
  rw [here_bind] at h
  cases hs : s.tokens with
  | nil =>
    have : advance? s = .ok none s := by unfold advance?; rw [hs]
    rw [bind_of_ok this] at h
    exact absurd h throw_ne_ok
  | cons t ts =>
    rw [advance?_bind hs, here_of_tokens hs] at h
    simp only at h
    cases hk : t.kind with
    | number raw =>
      rw [hk] at h
      obtain ⟨rfl, rfl⟩ := pure_eq_ok.1 h
      exact .number hs hk
    | string value quote raw =>
      rw [hk] at h
      obtain ⟨rfl, rfl⟩ := pure_eq_ok.1 h
      exact .string hs hk
    | identifier name =>
      rw [hk] at h
      obtain ⟨rfl, rfl⟩ := pure_eq_ok.1 h
      exact .identifier hs hk
    | keyword word =>
      rw [hk] at h
      cases word with
      | trueWord =>
        obtain ⟨rfl, rfl⟩ := pure_eq_ok.1 h
        exact .boolean hs hk
      | falseWord =>
        obtain ⟨rfl, rfl⟩ := pure_eq_ok.1 h
        exact .boolean hs hk
      | nullWord =>
        obtain ⟨rfl, rfl⟩ := pure_eq_ok.1 h
        exact .null hs hk
      | _ => exact absurd h throw_ne_ok
    | symbol mark =>
      rw [hk] at h
      cases mark with
      | leftParen =>
        obtain ⟨inner, s₁, hinner, h⟩ := bind_eq_ok.1 h
        obtain ⟨u, us, hu, hclose, h⟩ := (expect_bind_eq_ok (by decide)).1 h
        obtain ⟨rfl, rfl⟩ := pure_eq_ok.1 h
        exact .group hs hk (ih.reads .assignment hinner) hu hclose
      | leftBracket =>
        obtain ⟨inner, s₁, hinner, h⟩ := bind_eq_ok.1 h
        obtain ⟨rfl, rfl⟩ := pure_eq_ok.1 h
        exact .array hs hk (ih.readsAll hinner)
      | _ => exact absurd h throw_ne_ok
    | _ =>
      rw [hk] at h
      exact absurd h throw_ne_ok

/-- What a reader returns, however many steps it had, is derived. -/
theorem sound : ∀ n, Sound n
  | 0 => by
    refine ⟨fun r s s' e h => ?_, fun h => absurd h outOfSteps_ne_ok⟩
    cases r with
    | head =>
      rw [run_head] at h
      split at h <;> exact absurd h outOfSteps_ne_ok
    | _ => exact absurd h outOfSteps_ne_ok
  | n + 1 => by
    have ih := sound n
    refine ⟨fun r s s' e h => ?_, elements_of_ok ih⟩
    cases r with
    | assignment => exact assignment_of_ok ih h
    | conditional => exact conditional_of_ok ih h
    | binary least =>
      obtain ⟨left, s₁, hleft, h⟩ := bind_eq_ok.1 h
      exact .binary (ih.reads .unary hleft) (ih.reads (.climb _ _) h)
    | climb least left => exact climb_of_ok ih h
    | unary => exact unary_of_ok ih h
    | trailing => exact trailing_of_ok ih h
    | call => exact call_of_ok ih h
    | head =>
      rw [run_head] at h
      split at h
      · rename_i hnew
        exact .head_new hnew (construction_of_ok ih h)
      · rename_i hnew
        exact .head_primary hnew (primary_of_ok ih h)
    | construction => exact construction_of_ok ih h
    | suffixes calls first => exact suffixes_of_ok ih h
    | primary => exact primary_of_ok ih h

/-! ## The relation is followed -/

/-- How many calls can be open between a reader and the token it takes first. -/
def Reader.rank : Reader → Nat
  | .climb _ _ | .head | .construction | .suffixes _ _ | .primary => 1
  | .call => 2
  | .trailing => 3
  | .unary => 4
  | .binary _ => 5
  | .conditional => 6
  | .assignment => 7

/-- What the relation derives, the readers return with `n` steps, if that is enough. -/
structure Complete (n : Nat) : Prop where
  run : ∀ {r : Reader} {s s' : ParserState} {e : Expression}, Reads r s e s' →
    16 * s.tokens.length + r.rank ≤ n + 16 * s'.tokens.length → run r n s = .ok e s'
  elements : ∀ {close : Symbol} (context : String) {s s' : ParserState} {es : List Expression},
    ReadsAll close s es s' → 16 * s.tokens.length + 8 ≤ n + 16 * s'.tokens.length →
    elements n close context s = .ok es s'

theorem run_assignment (ih : Complete n) (h : Reads .assignment s e s')
    (hn : 16 * s.tokens.length + 7 ≤ n + 1 + 16 * s'.tokens.length) :
    assignmentLevel (n + 1) s = .ok e s' := by
  unfold assignmentLevel
  cases h with
  | assignment_plain h hop =>
    have h₁ : conditionalLevel n s = .ok e s' := ih.run h (by simp only [Reader.rank]; omega)
    rw [bind_of_ok h₁, peekKind?_bind, hop]
    rfl
  | assignment h ht hop hassign hvalue =>
    rename_i s₁ s₂ target value t ts op
    have l₁ := h.length
    have l₂ := hvalue.length
    simp only [ht, List.length_cons, past_tokens, grown_tokens, Reader.least] at hn l₁ l₂
    have h₁ : conditionalLevel n s = .ok target s₁ :=
      ih.run h (by simp only [ht, List.length_cons, Reader.rank]; omega)
    have h₂ : assignmentLevel n (s₁.past t ts) = .ok value s₂ :=
      ih.run hvalue (by simp only [past_tokens, Reader.rank]; omega)
    rw [bind_of_ok h₁, peekKind?_bind, kind?_of_tokens ht, Option.bind_some, hop]
    simp only
    rw [if_pos hassign, advance?_bind ht, bind_of_ok h₂]
    rfl

theorem run_conditional (ih : Complete n) (h : Reads .conditional s e s')
    (hn : 16 * s.tokens.length + 6 ≤ n + 1 + 16 * s'.tokens.length) :
    conditionalLevel (n + 1) s = .ok e s' := by
  unfold conditionalLevel
  cases h with
  | conditional_plain h hq =>
    have h₁ : binaryLevel n Precedence.nullish s = .ok e s' :=
      ih.run h (by simp only [Reader.rank]; omega)
    rw [bind_of_ok h₁, bind_of_ok (accept_of_ne (by decide) hq)]
    rfl
  | conditional h ht hq hyes hu hcolon hno =>
    rename_i s₁ s₂ s₃ condition yes no t u ts us
    have l₁ := h.length
    have l₂ := hyes.length
    have l₃ := hno.length
    simp only [ht, hu, List.length_cons, past_tokens, grown_tokens, Reader.least] at hn l₁ l₂ l₃
    have h₁ : binaryLevel n Precedence.nullish s = .ok condition s₁ :=
      ih.run h (by simp only [ht, List.length_cons, Reader.rank]; omega)
    have h₂ : assignmentLevel n (s₁.past t ts) = .ok yes s₂ :=
      ih.run hyes (by simp only [hu, List.length_cons, past_tokens, Reader.rank]; omega)
    have h₃ : assignmentLevel n (s₂.past u us) = .ok no s₃ :=
      ih.run hno (by simp only [past_tokens, Reader.rank]; omega)
    rw [bind_of_ok h₁, bind_of_ok (accept_of_eq (by decide) ht hq), if_pos rfl, bind_of_ok h₂,
      expect_bind hu hcolon (by decide), bind_of_ok h₃]
    rfl

theorem run_binary {least : Nat} (ih : Complete n) (h : Reads (.binary least) s e s')
    (hn : 16 * s.tokens.length + 5 ≤ n + 1 + 16 * s'.tokens.length) :
    binaryLevel (n + 1) least s = .ok e s' := by
  unfold binaryLevel
  cases h with
  | binary h hclimb =>
    rename_i s₁ left
    have l₁ := h.length
    have l₂ := hclimb.length
    simp only [Reader.least] at l₁ l₂
    have h₁ : unaryLevel n s = .ok left s₁ := ih.run h (by simp only [Reader.rank]; omega)
    rw [bind_of_ok h₁]
    exact ih.run hclimb (by simp only [Reader.rank]; omega)

theorem run_climb {least : Nat} {left : Expression} (ih : Complete n)
    (h : Reads (.climb least left) s e s')
    (hn : 16 * s.tokens.length + 1 ≤ n + 1 + 16 * s'.tokens.length) :
    climb (n + 1) least left s = .ok e s' := by
  unfold climb
  rw [peekKind?_bind]
  cases h with
  | climb_stop h =>
    cases hop : s.kind?.bind BinaryOp.ofOperand? with
    | none => rfl
    | some op =>
      simp only
      rw [if_pos (h op hop)]
      rfl
  | climb_step ht hop hleast hright hclimb =>
    rename_i s₁ right t ts op
    have l₁ := hright.length
    have l₂ := hclimb.length
    simp only [ht, List.length_cons, past_tokens, grown_tokens, Reader.least] at hn l₁ l₂
    have h₁ : binaryLevel n op.rightLevel (s.past t ts) = .ok right s₁ :=
      ih.run hright (by simp only [past_tokens, Reader.rank]; omega)
    rw [kind?_of_tokens ht, Option.bind_some, hop]
    simp only
    rw [if_neg (Nat.not_lt.2 hleast), advance?_bind ht]
    unfold BinaryOp.rightLevel at h₁
    rw [bind_of_ok h₁, node_bind]
    exact ih.run hclimb (by simp only [grown_tokens, Reader.rank]; omega)

theorem run_unary (ih : Complete n) (h : Reads .unary s e s')
    (hn : 16 * s.tokens.length + 4 ≤ n + 1 + 16 * s'.tokens.length) :
    unaryLevel (n + 1) s = .ok e s' := by
  unfold unaryLevel
  rw [peekKind?_bind]
  cases h with
  | unary_plain hop h =>
    rw [hop]
    exact ih.run h (by simp only [Reader.rank]; omega)
  | unary ht hop h =>
    rename_i s₁ operand t ts op
    have l₁ := h.length
    simp only [ht, List.length_cons, past_tokens, grown_tokens, Reader.least] at hn l₁
    have h₁ : unaryLevel n (s.past t ts) = .ok operand s₁ :=
      ih.run h (by simp only [past_tokens, Reader.rank]; omega)
    rw [kind?_of_tokens ht, Option.bind_some, hop]
    simp only
    rw [here_bind, advance?_bind ht, bind_of_ok h₁, here_of_tokens ht]
    rfl

theorem run_trailing (ih : Complete n) (h : Reads .trailing s e s')
    (hn : 16 * s.tokens.length + 3 ≤ n + 1 + 16 * s'.tokens.length) :
    trailingLevel (n + 1) s = .ok e s' := by
  unfold trailingLevel
  cases h with
  | trailing_plain h hop =>
    have h₁ : callLevel n s = .ok e s' := ih.run h (by simp only [Reader.rank]; omega)
    rw [bind_of_ok h₁, peek?_bind]
    unfold trailingOp? at hop
    rw [hop]
    rfl
  | trailing h ht hop =>
    rename_i s₁ operand t ts op
    simp only [past_tokens, grown_tokens] at hn
    have h₁ : callLevel n s = .ok operand s₁ :=
      ih.run h (by simp only [ht, List.length_cons, Reader.rank]; omega)
    rw [bind_of_ok h₁, peek?_bind]
    unfold trailingOp? at hop
    rw [hop]
    simp only
    rw [advance?_bind ht]
    rfl

theorem run_head_bind {f : Expression → Parse Expression} {first : Expression} {s₁ : ParserState}
    (h : run .head n s = .ok first s₁) :
    (do let head ← if ← at? (.keyword .newWord) then construction n else primaryLevel n
        f head) s = f first s₁ := by
  rw [run_head] at h
  rw [at?_bind]
  by_cases hnew : s.kind? = some (.keyword .newWord)
  · rw [if_pos hnew] at h
    rw [if_pos ((isAt_eq_true (by decide)).2 hnew), bind_of_ok h]
  · rw [if_neg hnew] at h
    rw [(isAt_eq_false (by decide)).2 hnew, if_neg (by decide), bind_of_ok h]

theorem run_call (ih : Complete n) (h : Reads .call s e s')
    (hn : 16 * s.tokens.length + 2 ≤ n + 1 + 16 * s'.tokens.length) :
    callLevel (n + 1) s = .ok e s' := by
  unfold callLevel
  cases h with
  | call h hsuffixes =>
    have l₁ := h.length
    have l₂ := hsuffixes.length
    simp only [Reader.least] at l₁ l₂
    rw [run_head_bind (ih.run h (by simp only [Reader.rank]; omega))]
    exact ih.run hsuffixes (by simp only [Reader.rank]; omega)

theorem run_construction (ih : Complete n) (h : Reads .construction s e s')
    (hn : 16 * s.tokens.length + 1 ≤ n + 1 + 16 * s'.tokens.length) :
    construction (n + 1) s = .ok e s' := by
  unfold construction
  cases h with
  | construction ht hnew h hcallee hu hparen harguments =>
    rename_i s₁ s₂ s₃ first callee arguments t u ts us
    have l₁ := h.length
    have l₂ := hcallee.length
    have l₃ := harguments.length
    simp only [ht, hu, List.length_cons, past_tokens, grown_tokens, Reader.least] at hn l₁ l₂ l₃
    have h₂ : suffixes n false first s₁ = .ok callee s₂ :=
      ih.run hcallee (by simp only [hu, List.length_cons, Reader.rank]; omega)
    rw [here_bind, expect_bind ht hnew (by decide), run_head_bind (ih.run h
      (by simp only [past_tokens, Reader.rank]; omega)), bind_of_ok h₂,
      bind_of_ok (accept_of_eq (by decide) hu hparen), if_pos rfl,
      bind_of_ok (ih.elements _ harguments (by simp only [past_tokens]; omega)),
      here_of_tokens ht]
    rfl
  | construction_bare ht hnew h hcallee hparen =>
    rename_i s₁ s₂ first callee t ts
    have l₁ := h.length
    have l₂ := hcallee.length
    simp only [ht, List.length_cons, past_tokens, grown_tokens, Reader.least] at hn l₁ l₂
    have h₂ : suffixes n false first s₁ = .ok callee s₂ :=
      ih.run hcallee (by simp only [Reader.rank]; omega)
    rw [here_bind, expect_bind ht hnew (by decide), run_head_bind (ih.run h
      (by simp only [past_tokens, Reader.rank]; omega)), bind_of_ok h₂,
      bind_of_ok (accept_of_ne (by decide) hparen), here_of_tokens ht]
    rfl

theorem suffixes_of_endsChain {calls : Bool} (h : endsChain calls s) :
    suffixes (n + 1) calls e s = .ok e s := by
  obtain ⟨hdot, hbracket, hparen⟩ := h
  unfold suffixes
  rw [peekKind?_bind]
  cases hk : s.kind? with
  | none => rfl
  | some k =>
    rw [hk] at hdot hbracket hparen
    cases k with
    | symbol mark =>
      cases mark with
      | dot => exact absurd rfl hdot
      | leftBracket => exact absurd rfl hbracket
      | leftParen =>
        cases calls with
        | true => exact absurd rfl (hparen rfl)
        | false => rfl
      | _ => rfl
    | _ => rfl

theorem run_suffixes {calls : Bool} {first : Expression} (ih : Complete n)
    (h : Reads (.suffixes calls first) s e s')
    (hn : 16 * s.tokens.length + 1 ≤ n + 1 + 16 * s'.tokens.length) :
    suffixes (n + 1) calls first s = .ok e s' := by
  cases h with
  | suffixes_stop h => exact suffixes_of_endsChain h
  | member ht hdot hu h =>
    rename_i t u ts property
    have l₁ := h.length
    simp only [ht, List.length_cons, past_tokens, grown_tokens, Reader.least] at hn l₁
    unfold suffixes
    rw [peekKind?_bind, kind?_of_tokens ht, hdot]
    simp only
    rw [advance?_bind ht, expectIdentifier_bind (past_tokens _ _ _) hu, nodeFrom_bind]
    exact ih.run h (by simp only [past_tokens, grown_tokens, Reader.rank]; omega)
  | index ht hopen hposition hu hclose h =>
    rename_i s₁ position t u ts us
    have l₁ := hposition.length
    have l₂ := h.length
    simp only [ht, hu, List.length_cons, past_tokens, grown_tokens, Reader.least] at hn l₁ l₂
    have h₁ : assignmentLevel n (s.past t ts) = .ok position s₁ :=
      ih.run hposition (by simp only [past_tokens, hu, List.length_cons, Reader.rank]; omega)
    unfold suffixes
    rw [peekKind?_bind, kind?_of_tokens ht, hopen]
    simp only
    rw [advance?_bind ht, bind_of_ok h₁, expect_bind hu hclose (by decide), nodeFrom_bind]
    exact ih.run h (by simp only [past_tokens, grown_tokens, Reader.rank]; omega)
  | arguments ht hopen harguments h =>
    rename_i s₁ arguments t ts
    have l₁ := harguments.length
    have l₂ := h.length
    simp only [ht, List.length_cons, past_tokens, grown_tokens, Reader.least] at hn l₁ l₂
    unfold suffixes
    rw [peekKind?_bind, kind?_of_tokens ht, hopen]
    simp only [if_true]
    rw [advance?_bind ht,
      bind_of_ok (ih.elements _ harguments (by simp only [past_tokens]; omega)),
      nodeFrom_bind]
    exact ih.run h (by simp only [grown_tokens, Reader.rank]; omega)

theorem run_elements {close : Symbol} {context : String} {es : List Expression} (ih : Complete n)
    (h : ReadsAll close s es s')
    (hn : 16 * s.tokens.length + 8 ≤ n + 1 + 16 * s'.tokens.length) :
    elements (n + 1) close context s = .ok es s' := by
  have hend : TokenKind.symbol close ≠ .endOfFile := by intro heq; cases heq
  unfold elements
  rw [at?_bind]
  cases h with
  | close ht hk =>
    rw [if_pos ((isAt_eq_true hend).2 (by rw [kind?_of_tokens ht, hk])),
      expect_bind ht hk hend]
    rfl
  | last hk h hcomma ht hclose =>
    rename_i s₁ first t ts
    simp only [past_tokens] at hn
    have h₁ : assignmentLevel n s = .ok first s₁ :=
      ih.run h (by simp only [ht, List.length_cons, Reader.rank]; omega)
    rw [(isAt_eq_false hend).2 hk, if_neg (by decide), bind_of_ok h₁,
      bind_of_ok (accept_of_ne (by decide) hcomma), if_neg (by decide), expect_bind ht hclose hend]
    rfl
  | more hk h ht hcomma hrest =>
    rename_i s₁ first rest t ts
    have l₁ := h.length
    have l₂ := hrest.length
    simp only [ht, List.length_cons, past_tokens, Reader.least] at hn l₁ l₂
    have h₁ : assignmentLevel n s = .ok first s₁ :=
      ih.run h (by simp only [ht, List.length_cons, Reader.rank]; omega)
    rw [(isAt_eq_false hend).2 hk, if_neg (by decide), bind_of_ok h₁,
      bind_of_ok (accept_of_eq (by decide) ht hcomma), if_pos rfl,
      bind_of_ok (ih.elements _ hrest (by simp only [past_tokens]; omega))]
    rfl

theorem run_primary (ih : Complete n) (h : Reads .primary s e s')
    (hn : 16 * s.tokens.length + 1 ≤ n + 1 + 16 * s'.tokens.length) :
    primaryLevel (n + 1) s = .ok e s' := by
  unfold primaryLevel
  rw [here_bind]
  cases h with
  | number ht hk | string ht hk | null ht hk | identifier ht hk =>
    rw [advance?_bind ht, here_of_tokens ht]
    simp only [hk]
    rfl
  | boolean ht hk =>
    rename_i t ts value
    rw [advance?_bind ht, here_of_tokens ht]
    simp only [hk]
    cases value <;> rfl
  | group ht hk h hu hclose =>
    rename_i s₁ t u ts us
    have l₁ := h.length
    simp only [ht, hu, List.length_cons, past_tokens, Reader.least] at hn l₁
    have h₁ : assignmentLevel n (s.past t ts) = .ok e s₁ :=
      ih.run h (by simp only [past_tokens, hu, List.length_cons, Reader.rank]; omega)
    rw [advance?_bind ht]
    simp only [hk]
    rw [bind_of_ok h₁, expect_bind hu hclose (by decide)]
    rfl
  | array ht hk h =>
    simp only [ht, List.length_cons, grown_tokens] at hn
    rw [advance?_bind ht, here_of_tokens ht]
    simp only [hk]
    rw [bind_of_ok (ih.elements _ h (by simp only [past_tokens]; omega))]
    rfl

/-- A reader that has sixteen steps for each token it takes, and its rank, does not run out. -/
theorem complete : ∀ n, Complete n
  | 0 => by
    refine ⟨fun {r} {s s' e} h hn => ?_, fun _ _ _ _ h hn => ?_⟩
    · have l := h.length
      have hrank : 0 < r.rank := by cases r <;> exact Nat.succ_pos _
      omega
    · have l := h.length
      omega
  | n + 1 => by
    have ih := complete n
    refine ⟨fun {r} {s s' e} h hn => ?_, fun _ _ _ _ h hn => run_elements ih h hn⟩
    cases r with
    | assignment => exact run_assignment ih h hn
    | conditional => exact run_conditional ih h hn
    | binary least => exact run_binary ih h hn
    | climb least left => exact run_climb ih h hn
    | unary => exact run_unary ih h hn
    | trailing => exact run_trailing ih h hn
    | call => exact run_call ih h hn
    | head =>
      rw [run_head]
      cases h with
      | head_new hk h =>
        rw [if_pos hk]
        exact run_construction ih h hn
      | head_primary hk h =>
        rw [if_neg hk]
        exact run_primary ih h hn
    | construction => exact run_construction ih h hn
    | suffixes calls first => exact run_suffixes ih h hn
    | primary => exact run_primary ih h hn

/-- **The readers are the relation.** The steps they are given are always enough. -/
theorem withSteps_run_eq_ok (r : Reader) : withSteps (run r) s = .ok e s' ↔ Reads r s e s' := by
  constructor
  · intro h
    exact (sound _).reads r h
  · intro h
    have hrank : r.rank ≤ 16 := by cases r <;> simp [Reader.rank]
    exact (complete _).run h (by unfold steps; omega)

theorem expression_eq_ok : expression s = .ok e s' ↔ Reads .assignment s e s' :=
  withSteps_run_eq_ok .assignment

theorem binary_eq_ok {least : Nat} : binary least s = .ok e s' ↔ Reads (.binary least) s e s' :=
  withSteps_run_eq_ok (.binary least)

theorem unary_eq_ok : unary s = .ok e s' ↔ Reads .unary s e s' := withSteps_run_eq_ok .unary

end DecimalLift.Parse
