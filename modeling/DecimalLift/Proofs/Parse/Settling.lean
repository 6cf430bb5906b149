import DecimalLift.Proofs.Parse.Outcome
import DecimalLift.Proofs.Parse.Statement

/-!
# Every reader settles

A reader that has sixteen steps for each token left, and its rank, comes to an end before they are
used up, whatever stands in the queue: further steps change nothing, neither where it succeeds nor
where it fails. A call that takes no token first leads to a smaller rank; all others have sixteen
steps more than they need for the tokens that they find.

* `steadyType`, `steady` — the readers of ascriptions and of expressions.
* `settles_form`, `steadyStatement` — the forms of statements, and the readers of statements.
* `settles_specifiers`, `settles_declarators`, `settles_parameters`, `settles_statements` — loops.
-/

set_option autoImplicit false

namespace DecimalLift.Parse

variable {d n : Nat} {s : ParserState} {text : String}

/-! ## Ascriptions -/

/-- The readers of ascriptions settle with `n` steps, and do the same with `d` more. -/
def SteadyType (d n : Nat) : Prop :=
  ∀ (r : TypeReader) {s : ParserState}, 16 * s.tokens.length + r.rank ≤ n →
    Settles (s.tokens.length + 1 - r.least) (runType r n) (runType r (d + n)) s

theorem settles_qualifiedTail (ih : SteadyType d n) (hn : 16 * s.tokens.length ≤ n) :
    Settles (s.tokens.length + 1) (qualifiedTail (n + 1) text) (qualifiedTail (d + n + 1) text)
      s := by
  unfold qualifiedTail
  refine .accept (by decide) (fun s₁ h₁ => ?_) (.pure (Nat.lt_succ_self _))
  refine .bind .expectIdentifier fun name s₂ h₂ => ?_
  exact (ih (.qualifiedTail _) (by simp only [TypeReader.rank]; omega)).mono (by omega)

theorem settles_arrayTail (ih : SteadyType d n) (hn : 16 * s.tokens.length ≤ n) :
    Settles (s.tokens.length + 1) (arrayTail (n + 1) text) (arrayTail (d + n + 1) text) s := by
  unfold arrayTail
  refine .accept (by decide) (fun s₁ h₁ => ?_) (.pure (Nat.lt_succ_self _))
  refine .bind .expect fun _ s₂ h₂ => ?_
  exact (ih (.arrayTail _) (by simp only [TypeReader.rank]; omega)).mono (by omega)

theorem settles_unionTail (ih : SteadyType d n) (hn : 16 * s.tokens.length ≤ n) :
    Settles (s.tokens.length + 1) (unionTail (n + 1) text) (unionTail (d + n + 1) text) s := by
  unfold unionTail
  refine .accept (by decide) (fun s₁ h₁ => ?_) (.pure (Nat.lt_succ_self _))
  have hsingle := ih .single (s := s₁) (by simp only [TypeReader.rank]; omega)
  refine hsingle.bind fun next s₂ (h₂ : s₂.tokens.length < s₁.tokens.length) => ?_
  exact (ih (.unionTail _) (by simp only [TypeReader.rank]; omega)).mono (by omega)

theorem settles_unionType (ih : SteadyType d n) (hn : 16 * s.tokens.length + 1 ≤ n) :
    Settles s.tokens.length (unionType (n + 1)) (unionType (d + n + 1)) s := by
  unfold unionType
  refine (ih .single hn).bind fun first s₁ (h₁ : s₁.tokens.length < s.tokens.length) => ?_
  exact (ih (.unionTail _) (by simp only [TypeReader.rank]; omega)).mono (by omega)

theorem settles_typeArguments (ih : SteadyType d n) (hn : 16 * s.tokens.length + 2 ≤ n) :
    Settles s.tokens.length (typeArguments (n + 1)) (typeArguments (d + n + 1)) s := by
  unfold typeArguments
  refine (ih .union hn).bind fun first s₁ (h₁ : s₁.tokens.length < s.tokens.length) => ?_
  refine .accept (by decide) (fun s₂ h₂ => ?_) (.pure h₁)
  have hrest := ih .arguments (s := s₂) (by simp only [TypeReader.rank]; omega)
  exact hrest.bind fun rest s₃ (h₃ : s₃.tokens.length < s₂.tokens.length) => .pure (by omega)

theorem settles_singleType (ih : SteadyType d n) (hn : 16 * s.tokens.length ≤ n) :
    Settles s.tokens.length (singleType (n + 1)) (singleType (d + n + 1)) s := by
  unfold singleType
  -- whatever the base is, the brackets behind it are read from a shorter queue
  have harray : ∀ text s₁, s₁.tokens.length < s.tokens.length →
      Settles s.tokens.length (arrayTail n text) (arrayTail (d + n) text) s₁ := fun text s₁ h₁ =>
    (ih (.arrayTail text) (by simp only [TypeReader.rank]; omega)).mono (by omega)
  refine .here (.advanceKind (.throw rfl) fun k s₁ h₁ => ?_)
  cases k with
  | identifier name =>
    have hname := ih (.qualifiedTail name) (s := s₁) (by simp only [TypeReader.rank]; omega)
    refine hname.bind fun name s₂ (h₂ : s₂.tokens.length < s₁.tokens.length + 1) => ?_
    refine .accept (by decide) (fun s₃ h₃ => ?_) (harray _ _ (by omega))
    have harguments := ih .arguments (s := s₃) (by simp only [TypeReader.rank]; omega)
    refine harguments.bind fun inner s₄ (h₄ : s₄.tokens.length < s₃.tokens.length) => ?_
    exact .bind .closeAngle fun _ s₅ h₅ => harray _ _ (by omega)
  | keyword word =>
    cases word with
    | nullWord => exact harray _ _ h₁
    | _ => exact .throw rfl
  | string value quote raw => exact harray _ _ h₁
  | number raw => exact harray _ _ h₁
  | symbol symbol =>
    cases symbol with
    | leftParen =>
      have hinner := ih .union (s := s₁) (by simp only [TypeReader.rank]; omega)
      refine hinner.bind fun inner s₂ (h₂ : s₂.tokens.length < s₁.tokens.length) => ?_
      exact .bind .expect fun _ s₃ h₃ => harray _ _ (by omega)
    | _ => exact .throw rfl
  | _ => exact .throw rfl

theorem steadyType (d : Nat) : ∀ n, SteadyType d n
  | 0, r, s, hn => by
    have hrank : 0 < r.rank := by cases r <;> exact Nat.succ_pos _
    omega
  | n + 1, r, s, hn => by
    have ih := steadyType d n
    cases r with
    | qualifiedTail text => exact settles_qualifiedTail ih (Nat.le_of_succ_le_succ hn)
    | arrayTail text => exact settles_arrayTail ih (Nat.le_of_succ_le_succ hn)
    | union => exact settles_unionType ih (Nat.le_of_succ_le_succ hn)
    | unionTail text => exact settles_unionTail ih (Nat.le_of_succ_le_succ hn)
    | single => exact settles_singleType ih (Nat.le_of_succ_le_succ hn)
    | arguments => exact settles_typeArguments ih (Nat.le_of_succ_le_succ hn)

/-! ## Expressions -/

/-- The readers of expressions settle with `n` steps, and do the same with `d` more. -/
structure Steady (d n : Nat) : Prop where
  run : ∀ (r : Reader) {s : ParserState}, 16 * s.tokens.length + r.rank ≤ n →
    Settles (s.tokens.length + 1 - r.least) (run r n) (run r (d + n)) s
  elements : ∀ (close : Symbol) (context : String) {s : ParserState},
    16 * s.tokens.length + 8 ≤ n →
      Settles s.tokens.length (elements n close context) (elements (d + n) close context) s

theorem settles_assignment (ih : Steady d n) (hn : 16 * s.tokens.length + 6 ≤ n) :
    Settles s.tokens.length (assignmentLevel (n + 1)) (assignmentLevel (d + n + 1)) s := by
  unfold assignmentLevel
  have htarget := ih.run .conditional hn
  refine htarget.bind fun target s₁ (h₁ : s₁.tokens.length < s.tokens.length) => .peekKind ?_
  cases hop : s₁.kind?.bind BinaryOp.ofAssignment? with
  | none => exact .pure h₁
  | some op =>
    refine .ite (fun _ => ?_) fun _ => .throw rfl
    obtain ⟨k, hk, -⟩ := Option.bind_eq_some_iff.1 hop
    refine .skip hk fun s₂ h₂ => ?_
    have hvalue := ih.run .assignment (s := s₂) (by simp only [Reader.rank]; omega)
    refine hvalue.bind fun value s₃ (h₃ : s₃.tokens.length < s₂.tokens.length) => ?_
    exact .node fun _ s₄ h₄ => .pure (by omega)

theorem settles_conditional (ih : Steady d n) (hn : 16 * s.tokens.length + 5 ≤ n) :
    Settles s.tokens.length (conditionalLevel (n + 1)) (conditionalLevel (d + n + 1)) s := by
  unfold conditionalLevel
  have hcondition := ih.run (.binary Precedence.nullish) hn
  refine hcondition.bind fun condition s₁ (h₁ : s₁.tokens.length < s.tokens.length) => ?_
  refine .accept (by decide) (fun s₂ h₂ => ?_) (.pure h₁)
  have hyes := ih.run .assignment (s := s₂) (by simp only [Reader.rank]; omega)
  refine hyes.bind fun yes s₃ (h₃ : s₃.tokens.length < s₂.tokens.length) => ?_
  refine .bind .expect fun _ s₄ h₄ => ?_
  have hno := ih.run .assignment (s := s₄) (by simp only [Reader.rank]; omega)
  refine hno.bind fun no s₅ (h₅ : s₅.tokens.length < s₄.tokens.length) => ?_
  exact .node fun _ s₆ h₆ => .pure (by omega)

theorem settles_binary {least : Nat} (ih : Steady d n) (hn : 16 * s.tokens.length + 4 ≤ n) :
    Settles s.tokens.length (binaryLevel (n + 1) least) (binaryLevel (d + n + 1) least) s := by
  unfold binaryLevel
  refine (ih.run .unary hn).bind fun left s₁ (h₁ : s₁.tokens.length < s.tokens.length) => ?_
  exact (ih.run (.climb least left) (by simp only [Reader.rank]; omega)).mono h₁

theorem settles_climb {least : Nat} {left : Expression} (ih : Steady d n)
    (hn : 16 * s.tokens.length ≤ n) :
    Settles (s.tokens.length + 1) (climb (n + 1) least left) (climb (d + n + 1) least left) s := by
  unfold climb
  refine .peekKind ?_
  cases hop : s.kind?.bind BinaryOp.ofOperand? with
  | none => exact .pure (Nat.lt_succ_self _)
  | some op =>
    refine .ite (fun _ => .pure (Nat.lt_succ_self _)) fun _ => ?_
    obtain ⟨k, hk, -⟩ := Option.bind_eq_some_iff.1 hop
    refine .skip hk fun s₁ h₁ => ?_
    have hright := ih.run (.binary (if op.isRightAssociative then op.precedence
      else op.precedence + 1)) (s := s₁) (by simp only [Reader.rank]; omega)
    refine hright.bind fun right s₂ (h₂ : s₂.tokens.length < s₁.tokens.length) => ?_
    refine .node fun made s₃ h₃ => ?_
    exact (ih.run (.climb least (.binary made op left right))
      (by simp only [Reader.rank]; omega)).mono (by omega)

theorem settles_unary (ih : Steady d n) (hn : 16 * s.tokens.length + 3 ≤ n) :
    Settles s.tokens.length (unaryLevel (n + 1)) (unaryLevel (d + n + 1)) s := by
  unfold unaryLevel
  refine .peekKind ?_
  cases hop : s.kind?.bind UnaryOp.ofLeading? with
  | none => exact ih.run .trailing hn
  | some op =>
    obtain ⟨k, hk, -⟩ := Option.bind_eq_some_iff.1 hop
    refine .here (.skip hk fun s₁ h₁ => ?_)
    have hoperand := ih.run .unary (s := s₁) (by simp only [Reader.rank]; omega)
    refine hoperand.bind fun operand s₂ (h₂ : s₂.tokens.length < s₁.tokens.length) => ?_
    exact .made (by omega)

theorem settles_trailing (ih : Steady d n) (hn : 16 * s.tokens.length + 2 ≤ n) :
    Settles s.tokens.length (trailingLevel (n + 1)) (trailingLevel (d + n + 1)) s := by
  unfold trailingLevel
  refine (ih.run .call hn).bind fun operand s₁ (h₁ : s₁.tokens.length < s.tokens.length) => ?_
  refine .peek ?_
  cases hop : trailingOp? s₁ with
  | none =>
    unfold trailingOp? at hop
    rw [hop]
    exact .pure h₁
  | some op =>
    obtain ⟨t, ts, ht⟩ := exists_of_trailingOp? hop
    unfold trailingOp? at hop
    rw [hop]
    refine .skip (ParserState.kind?_of_tokens ht) fun s₂ h₂ => ?_
    exact .made (by omega)

theorem settles_head {m : Nat} {f g : Expression → Parse Expression} (ih : Steady d n)
    (hn : 16 * s.tokens.length + 1 ≤ n)
    (hrest : ∀ first s₁, s₁.tokens.length < s.tokens.length → Settles m (f first) (g first) s₁) :
    Settles m
      (do let first ← if ← at? (.keyword .newWord) then construction n else primaryLevel n
          f first)
      (do let first ← if ← at? (.keyword .newWord) then construction (d + n)
            else primaryLevel (d + n)
          g first) s := by
  refine .atKind (.ite (fun _ => ?_) fun _ => ?_)
  · exact (ih.run .construction hn).bind hrest
  · exact (ih.run .primary hn).bind hrest

theorem settles_call (ih : Steady d n) (hn : 16 * s.tokens.length + 1 ≤ n) :
    Settles s.tokens.length (callLevel (n + 1)) (callLevel (d + n + 1)) s := by
  unfold callLevel
  refine settles_head ih hn fun first s₁ h₁ => ?_
  exact (ih.run (.suffixes true first) (by simp only [Reader.rank]; omega)).mono h₁

theorem settles_construction (ih : Steady d n) (hn : 16 * s.tokens.length ≤ n) :
    Settles s.tokens.length (construction (n + 1)) (construction (d + n + 1)) s := by
  unfold construction
  refine .here (.bind .expect fun _ s₁ h₁ => ?_)
  refine settles_head ih (by omega) fun first s₂ h₂ => ?_
  have hsuffixes := ih.run (.suffixes false first) (s := s₂) (by simp only [Reader.rank]; omega)
  refine hsuffixes.bind fun callee s₃ (h₃ : s₃.tokens.length < s₂.tokens.length + 1) => ?_
  refine .accept (by decide) (fun s₄ h₄ => ?_) (.made (by omega))
  refine (ih.elements .rightParen _ (by omega)).bind fun arguments s₅ h₅ => ?_
  exact .made (by omega)

theorem settles_suffixes {calls : Bool} {first : Expression} (ih : Steady d n)
    (hn : 16 * s.tokens.length ≤ n) :
    Settles (s.tokens.length + 1) (suffixes (n + 1) calls first) (suffixes (d + n + 1) calls first)
      s := by
  unfold suffixes
  -- behind each suffix the chain goes on with a shorter queue
  have hchain : ∀ longer s₁, s₁.tokens.length < s.tokens.length → Settles (s.tokens.length + 1)
      (suffixes n calls longer) (suffixes (d + n) calls longer) s₁ := fun longer s₁ h₁ =>
    (ih.run (.suffixes calls longer) (by simp only [Reader.rank]; omega)).mono (by omega)
  have hstop : Settles (s.tokens.length + 1) (pure first) (pure first) s :=
    .pure (Nat.lt_succ_self _)
  refine .peekKind ?_
  cases hk : s.kind? with
  | none => exact hstop
  | some k =>
    cases k with
    | symbol mark =>
      cases mark with
      | dot =>
        refine .skip hk fun s₁ h₁ => .bind .expectIdentifier fun property s₂ h₂ => ?_
        exact .nodeFrom fun _ s₃ h₃ => hchain _ _ (by omega)
      | leftBracket =>
        refine .skip hk fun s₁ h₁ => ?_
        have hposition := ih.run .assignment (s := s₁) (by simp only [Reader.rank]; omega)
        refine hposition.bind fun position s₂ (h₂ : s₂.tokens.length < s₁.tokens.length) => ?_
        refine .bind .expect fun _ s₃ h₃ => ?_
        exact .nodeFrom fun _ s₄ h₄ => hchain _ _ (by omega)
      | leftParen =>
        refine .ite (fun _ => .skip hk fun s₁ h₁ => ?_) fun _ => hstop
        refine (ih.elements .rightParen _ (by omega)).bind fun arguments s₂ h₂ => ?_
        exact .nodeFrom fun _ s₃ h₃ => hchain _ _ (by omega)
      | _ => exact hstop
    | _ => exact hstop

theorem settles_elements {close : Symbol} {context : String} (ih : Steady d n)
    (hn : 16 * s.tokens.length + 7 ≤ n) :
    Settles s.tokens.length (elements (n + 1) close context) (elements (d + n + 1) close context)
      s := by
  unfold elements
  refine .atKind (.ite (fun _ => .bind .expect fun _ s₁ h₁ => .pure h₁) fun _ => ?_)
  refine (ih.run .assignment hn).bind fun first s₁ (h₁ : s₁.tokens.length < s.tokens.length) => ?_
  refine .accept (by decide) (fun s₂ h₂ => ?_) (.bind .expect fun _ s₂ h₂ => .pure (by omega))
  exact (ih.elements close context (by omega)).bind fun rest s₃ h₃ => .pure (by omega)

theorem settles_primary (ih : Steady d n) (hn : 16 * s.tokens.length ≤ n) :
    Settles s.tokens.length (primaryLevel (n + 1)) (primaryLevel (d + n + 1)) s := by
  unfold primaryLevel
  refine .here (.advance (.throw rfl) fun t s₁ h₁ => ?_)
  simp only
  cases t.kind with
  | number raw => exact .made h₁
  | string value quote raw => exact .made h₁
  | identifier name => exact .made h₁
  | keyword word =>
    cases word with
    | trueWord | falseWord | nullWord => exact .made h₁
    | _ => exact .throw rfl
  | symbol mark =>
    cases mark with
    | leftParen =>
      have hinner := ih.run .assignment (s := s₁) (by simp only [Reader.rank]; omega)
      refine hinner.bind fun inner s₂ (h₂ : s₂.tokens.length < s₁.tokens.length) => ?_
      exact .bind .expect fun _ s₃ h₃ => .pure (by omega)
    | leftBracket =>
      refine (ih.elements .rightBracket _ (by omega)).bind fun inner s₂ h₂ => ?_
      exact .made (by omega)
    | _ => exact .throw rfl
  | _ => exact .throw rfl

theorem steady (d : Nat) : ∀ n, Steady d n
  | 0 => by
    refine ⟨fun r s hn => ?_, fun close context s hn => by omega⟩
    have hrank : 0 < r.rank := by cases r <;> exact Nat.succ_pos _
    omega
  | n + 1 => by
    have ih := steady d n
    refine ⟨fun r s hn => ?_, fun close context s hn => settles_elements ih (by omega)⟩
    cases r with
    | assignment => exact settles_assignment ih (Nat.le_of_succ_le_succ hn)
    | conditional => exact settles_conditional ih (Nat.le_of_succ_le_succ hn)
    | binary least => exact settles_binary ih (Nat.le_of_succ_le_succ hn)
    | climb least left => exact settles_climb ih (Nat.le_of_succ_le_succ hn)
    | unary => exact settles_unary ih (Nat.le_of_succ_le_succ hn)
    | trailing => exact settles_trailing ih (Nat.le_of_succ_le_succ hn)
    | call => exact settles_call ih (Nat.le_of_succ_le_succ hn)
    | head =>
      refine .atKind (.ite (fun _ => ?_) fun _ => ?_)
      · exact settles_construction ih (Nat.le_of_succ_le_succ hn)
      · exact settles_primary ih (Nat.le_of_succ_le_succ hn)
    | construction => exact settles_construction ih (Nat.le_of_succ_le_succ hn)
    | suffixes calls first => exact settles_suffixes ih (Nat.le_of_succ_le_succ hn)
    | primary => exact settles_primary ih (Nat.le_of_succ_le_succ hn)

/-! ## With the steps for the queue -/

theorem settles_withSteps_run (r : Reader) :
    Settles (s.tokens.length + 1 - r.least) (withSteps (run r)) (withSteps (run r)) s := by
  have hrank : r.rank ≤ 16 := by cases r <;> simp [Reader.rank]
  exact .withSteps ((steady 0 (steps s)).run r (by unfold steps; omega))

theorem settles_expression : Settles s.tokens.length expression expression s :=
  settles_withSteps_run .assignment

theorem settles_ascription : Settles s.tokens.length ascription ascription s := by
  have hrank : 16 * s.tokens.length + TypeReader.union.rank ≤ steps s := by
    unfold steps
    simp only [TypeReader.rank]
    omega
  exact .withSteps (steadyType 0 (steps s) .union hrank)

theorem settles_ascription? : Settles (s.tokens.length + 1) ascription? ascription? s := by
  refine .accept (by decide) (fun s₁ h₁ => ?_) (.pure (Nat.lt_succ_self _))
  exact settles_ascription.bind fun type s₂ h₂ => .pure (by omega)

/-! ## Declarations

The loops here take a name each time round, so they end if they have more steps than there are
tokens left. -/

section Optional

variable {β : Type} {m : Nat}

theorem settles_initial {f g : Option Expression → Parse β}
    (hrest : ∀ e s₁, s₁.tokens.length ≤ s.tokens.length → Settles m (f e) (g e) s₁) :
    Settles m
      (do let e ← if ← accept (.symbol .equal) then pure (some (← expression)) else pure none
          f e)
      (do let e ← if ← accept (.symbol .equal) then pure (some (← expression)) else pure none
          g e) s := by
  refine .accept (by decide) (fun s₁ h₁ => ?_) (hrest none s (Nat.le_refl _))
  exact settles_expression.bind fun e s₂ h₂ => hrest (some e) s₂ (by omega)

theorem settles_renamed {imported : String} {f g : String → Parse β}
    (hrest : ∀ bound s₁, s₁.tokens.length ≤ s.tokens.length → Settles m (f bound) (g bound) s₁) :
    Settles m
      (do let bound ←
            if ← atWord? "as" then do
              let _ ← advance?
              expectIdentifier "import specifier"
            else pure imported
          f bound)
      (do let bound ←
            if ← atWord? "as" then do
              let _ ← advance?
              expectIdentifier "import specifier"
            else pure imported
          g bound) s := by
  refine .atKind (.ite (fun has => ?_) fun _ => hrest imported s (Nat.le_refl _))
  refine .skip ((ParserState.isAt_eq_true (by decide)).1 has) fun s₁ h₁ => ?_
  exact .bind .expectIdentifier fun bound s₂ h₂ => hrest bound s₂ (by omega)

end Optional

theorem settles_moduleName {declaration : ImportDeclaration} :
    Settles s.tokens.length (moduleName declaration) (moduleName declaration) s := by
  refine .advance .failAtEnd fun t s₁ h₁ => ?_
  simp only
  cases t.kind with
  | string value quote raw => exact .pure h₁
  | _ => exact .throw rfl

theorem settles_specifiers (d : Nat) : ∀ (n : Nat) {s : ParserState}, s.tokens.length < n →
    Settles (s.tokens.length + 1) (specifiers n) (specifiers (d + n)) s
  | 0, s, hn => absurd hn (Nat.not_lt_zero _)
  | n + 1, s, hn => by
    show Settles _ (specifiers (n + 1)) (specifiers (d + n + 1)) s
    unfold specifiers
    refine .atKind (.ite (fun _ => .pure (Nat.lt_succ_self _)) fun _ => ?_)
    refine .bind .expectIdentifier fun imported s₁ h₁ => settles_renamed fun bound s₂ h₂ => ?_
    refine .accept (by decide) (fun s₃ h₃ => ?_) (.pure (by omega))
    exact (settles_specifiers d n (by omega)).bind fun rest s₄ h₄ => .pure (by omega)

theorem settles_importClause {declaration : ImportDeclaration} :
    Settles s.tokens.length (importClause declaration) (importClause declaration) s := by
  refine .accept (by decide) (fun s₁ h₁ => ?_) ?_
  · refine .bind .expectWord fun _ s₂ h₂ => ?_
    exact .bind .expectIdentifier fun name s₃ h₃ => .pure (by omega)
  · refine .bind .expect fun _ s₁ h₁ => ?_
    have hnamed := settles_specifiers 0 (steps s₁) (length_lt_steps s₁)
    refine hnamed.withSteps.bind fun named s₂ h₂ => ?_
    exact .bind .expect fun _ s₃ h₃ => .pure (by omega)

theorem settles_importBindings {declaration : ImportDeclaration} :
    Settles s.tokens.length (importBindings declaration) (importBindings declaration) s := by
  have hfrom : ∀ (declaration : ImportDeclaration) s₁, s₁.tokens.length ≤ s.tokens.length →
      Settles s.tokens.length
        (expectWord "from" "import declaration" >>= fun _ => pure declaration)
        (expectWord "from" "import declaration" >>= fun _ => pure declaration) s₁ :=
    fun _ s₁ h₁ => .bind .expectWord fun _ s₂ h₂ => .pure (by omega)
  have hclause : ∀ (declaration : ImportDeclaration) s₁, s₁.tokens.length ≤ s.tokens.length →
      Settles s.tokens.length
        (importClause declaration >>= fun declaration =>
          expectWord "from" "import declaration" >>= fun _ => pure declaration)
        (importClause declaration >>= fun declaration =>
          expectWord "from" "import declaration" >>= fun _ => pure declaration) s₁ :=
    fun _ s₁ h₁ => settles_importClause.bind fun _ s₂ h₂ => hfrom _ _ (by omega)
  refine .peekKind ?_
  cases s.kind? with
  | none => exact hclause _ _ (Nat.le_refl _)
  | some k =>
    cases k with
    | identifier _ =>
      refine .bind .expectIdentifier fun name s₁ h₁ => ?_
      exact .accept (by decide) (fun s₂ h₂ => hclause _ _ (by omega)) (hfrom _ _ (by omega))
    | _ => exact hclause _ _ (Nat.le_refl _)

theorem settles_importDeclaration :
    Settles s.tokens.length importDeclaration importDeclaration s := by
  have hmodule : ∀ (declaration : ImportDeclaration) s₁, s₁.tokens.length < s.tokens.length →
      Settles s.tokens.length
        (moduleName declaration >>= fun declaration =>
          endStatement "import declaration" >>= fun _ => pure declaration)
        (moduleName declaration >>= fun declaration =>
          endStatement "import declaration" >>= fun _ => pure declaration) s₁ :=
    fun _ s₁ h₁ => settles_moduleName.bind fun _ s₂ h₂ => .bind .endStatement fun _ s₃ h₃ =>
      .pure (by omega)
  refine .bind .expect fun _ s₁ h₁ => .peekKind ?_
  cases s₁.kind? with
  | none => exact settles_importBindings.bind fun _ s₂ h₂ => hmodule _ _ (by omega)
  | some k =>
    cases k with
    | string value quote raw => exact hmodule _ _ h₁
    | _ => exact settles_importBindings.bind fun _ s₂ h₂ => hmodule _ _ (by omega)

theorem settles_declarators (d : Nat) : ∀ (n : Nat) {s : ParserState}, s.tokens.length < n →
    Settles s.tokens.length (declarators n) (declarators (d + n)) s
  | 0, s, hn => absurd hn (Nat.not_lt_zero _)
  | n + 1, s, hn => by
    show Settles _ (declarators (n + 1)) (declarators (d + n + 1)) s
    unfold declarators
    refine .here (.bind .expectIdentifier fun name s₁ h₁ => ?_)
    refine settles_ascription?.bind fun type s₂ h₂ => settles_initial fun initial s₃ h₃ => ?_
    refine .nodeFrom fun made s₄ h₄ => ?_
    refine .accept (by decide) (fun s₅ h₅ => ?_) (.pure (by omega))
    exact (settles_declarators d n (by omega)).bind fun rest s₆ h₆ => .pure (by omega)

theorem settles_variableDeclaration :
    Settles s.tokens.length variableDeclaration variableDeclaration s := by
  have hdeclarators := fun s₁ => settles_declarators 0 (steps s₁) (length_lt_steps s₁)
  refine .advanceKind ?_ fun k s₁ h₁ => ?_
  · exact (hdeclarators s).withSteps.bind fun _ s₁ h₁ => .pure h₁
  · exact (hdeclarators s₁).withSteps.bind fun _ s₂ h₂ => .pure (by omega)

theorem settles_parameters (d : Nat) : ∀ (n : Nat) {s : ParserState}, s.tokens.length < n →
    Settles (s.tokens.length + 1) (parameters n) (parameters (d + n)) s
  | 0, s, hn => absurd hn (Nat.not_lt_zero _)
  | n + 1, s, hn => by
    show Settles _ (parameters (n + 1)) (parameters (d + n + 1)) s
    unfold parameters
    refine .atKind (.ite (fun _ => .pure (Nat.lt_succ_self _)) fun _ => ?_)
    refine .bind .expectIdentifier fun name s₁ h₁ => ?_
    refine settles_ascription?.bind fun type s₂ h₂ => ?_
    refine .accept (by decide) (fun s₃ h₃ => ?_) (.pure (by omega))
    exact (settles_parameters d n (by omega)).bind fun rest s₄ h₄ => .pure (by omega)

/-! ## Statements -/

theorem settles_forStart : Settles (s.tokens.length + 1) forStart forStart s := by
  refine .atKind (.ite (fun _ => .pure (Nat.lt_succ_self _)) fun _ => .here (.peekKind ?_))
  refine .ite (fun _ => ?_) fun _ => ?_
  · refine settles_variableDeclaration.bind fun _ s₁ h₁ => ?_
    exact .made (by omega)
  · refine settles_expression.bind fun _ s₁ h₁ => ?_
    exact .made (by omega)

theorem settles_expressionBefore {close : Symbol} :
    Settles (s.tokens.length + 1) (expressionBefore close) (expressionBefore close) s := by
  refine .atKind (.ite (fun _ => .pure (Nat.lt_succ_self _)) fun _ => ?_)
  exact settles_expression.bind fun _ s₁ h₁ => .pure (by omega)

section Forms

variable {inner inner' : Parse Statement} {block block' : Parse (List Statement)}

theorem settles_importForm : Settles s.tokens.length importForm importForm s := by
  refine .here (settles_importDeclaration.bind fun _ s₁ h₁ => ?_)
  exact .made (by omega)

theorem settles_exportForm (hk : s.kind? = some (.keyword .exportWord))
    (hinner : ∀ s₁, s₁.tokens.length < s.tokens.length →
      Settles s₁.tokens.length inner inner' s₁) :
    Settles s.tokens.length (exportForm inner) (exportForm inner') s := by
  refine .here (.skip hk fun s₁ h₁ => (hinner s₁ h₁).bind fun exported s₂ h₂ => ?_)
  refine .ite (fun _ => ?_) fun _ => .throw rfl
  exact .made (by omega)

theorem settles_variableForm : Settles s.tokens.length variableForm variableForm s := by
  refine .here (settles_variableDeclaration.bind fun _ s₁ h₁ => ?_)
  refine .bind .endStatement fun _ s₂ h₂ => ?_
  exact .made (by omega)

theorem settles_functionForm
    (hblock : ∀ s₁, s₁.tokens.length ≤ s.tokens.length →
      Settles s₁.tokens.length block block' s₁) :
    Settles s.tokens.length (functionForm block) (functionForm block') s := by
  refine .here (.bind .expect fun _ s₁ h₁ => .bind .expectIdentifier fun name s₂ h₂ => ?_)
  refine .bind .expect fun _ s₃ h₃ => ?_
  have hparameters := settles_parameters 0 (steps s₃) (length_lt_steps s₃)
  refine hparameters.withSteps.bind fun ps s₄ h₄ => .bind .expect fun _ s₅ h₅ => ?_
  refine settles_ascription?.bind fun result s₆ h₆ => ?_
  refine (hblock s₆ (by omega)).bind fun body s₇ h₇ => ?_
  exact .made (by omega)

theorem settles_returnForm (hk : s.kind? = some (.keyword .returnWord)) :
    Settles s.tokens.length returnForm returnForm s := by
  have hend : ∀ (value : Option Expression) s₁, s₁.tokens.length < s.tokens.length →
      Settles s.tokens.length
        (endStatement "return statement" >>= fun _ =>
          nodeFrom s.here >>= fun made => pure (Statement.returns made value))
        (endStatement "return statement" >>= fun _ =>
          nodeFrom s.here >>= fun made => pure (Statement.returns made value)) s₁ :=
    fun _ s₁ h₁ => .bind .endStatement fun _ s₂ h₂ => .made (by omega)
  refine .here (.skip hk fun s₁ h₁ => .peek (.ite (fun _ => hend _ _ h₁) fun _ => ?_))
  exact settles_expression.bind fun value s₂ h₂ => hend _ _ (by omega)

theorem settles_branchForm
    (hinner : ∀ s₁, s₁.tokens.length < s.tokens.length →
      Settles s₁.tokens.length inner inner' s₁) :
    Settles s.tokens.length (branchForm inner) (branchForm inner') s := by
  refine .here (.bind .expect fun _ s₁ h₁ => .bind .expect fun _ s₂ h₂ => ?_)
  refine settles_expression.bind fun condition s₃ h₃ => .bind .expect fun _ s₄ h₄ => ?_
  refine (hinner s₄ (by omega)).bind fun yes s₅ h₅ => ?_
  simp only [pure_bind]
  refine .accept (by decide) (fun s₆ h₆ => ?_) (.made (by omega))
  exact (hinner s₆ (by omega)).bind fun no s₇ h₇ => .made (by omega)

theorem settles_whileForm (hk : s.kind? = some (.keyword .whileWord))
    (hinner : ∀ s₁, s₁.tokens.length < s.tokens.length →
      Settles s₁.tokens.length inner inner' s₁) :
    Settles s.tokens.length (whileForm inner) (whileForm inner') s := by
  refine .here (.skip hk fun s₁ h₁ => .bind .expect fun _ s₂ h₂ => ?_)
  refine settles_expression.bind fun condition s₃ h₃ => .bind .expect fun _ s₄ h₄ => ?_
  refine (hinner s₄ (by omega)).bind fun body s₅ h₅ => ?_
  exact .made (by omega)

theorem settles_forForm
    (hinner : ∀ s₁, s₁.tokens.length < s.tokens.length →
      Settles s₁.tokens.length inner inner' s₁) :
    Settles s.tokens.length (forForm inner) (forForm inner') s := by
  refine .here (.bind .expect fun _ s₁ h₁ => .bind .expect fun _ s₂ h₂ => ?_)
  refine settles_forStart.bind fun first s₃ h₃ => .bind .expect fun _ s₄ h₄ => ?_
  refine settles_expressionBefore.bind fun condition s₅ h₅ => .bind .expect fun _ s₆ h₆ => ?_
  refine settles_expressionBefore.bind fun update s₇ h₇ => .bind .expect fun _ s₈ h₈ => ?_
  refine (hinner s₈ (by omega)).bind fun body s₉ h₉ => ?_
  exact .made (by omega)

theorem settles_blockForm (hblock : Settles s.tokens.length block block' s) :
    Settles s.tokens.length (blockForm block) (blockForm block') s := by
  refine .here (hblock.bind fun body s₁ h₁ => ?_)
  exact .made (by omega)

theorem settles_emptyForm (hk : s.kind? = some (.symbol .semicolon)) :
    Settles s.tokens.length emptyForm emptyForm s := by
  refine .here (.skip hk fun s₁ h₁ => ?_)
  exact .made (by omega)

theorem settles_expressionForm : Settles s.tokens.length expressionForm expressionForm s := by
  refine .here (settles_expression.bind fun _ s₁ h₁ => .bind .endStatement fun _ s₂ h₂ => ?_)
  exact .made (by omega)

/-- **Each form of statement settles if the statements inside it do.** -/
theorem settles_form
    (hinner : ∀ s₁, s₁.tokens.length < s.tokens.length →
      Settles s₁.tokens.length inner inner' s₁)
    (hblock : ∀ s₁, s₁.tokens.length ≤ s.tokens.length →
      Settles s₁.tokens.length block block' s₁) :
    Settles s.tokens.length (form inner block s.kind?) (form inner' block' s.kind?) s := by
  cases hk : s.kind? with
  | none => exact settles_expressionForm
  | some k =>
    cases k with
    | keyword word =>
      cases word with
      | importWord => exact settles_importForm
      | exportWord => exact settles_exportForm hk hinner
      | letWord | constWord | varWord => exact settles_variableForm
      | functionWord => exact settles_functionForm hblock
      | returnWord => exact settles_returnForm hk
      | ifWord => exact settles_branchForm hinner
      | whileWord => exact settles_whileForm hk hinner
      | forWord => exact settles_forForm hinner
      | _ => exact settles_expressionForm
    | symbol mark =>
      cases mark with
      | leftBrace => exact settles_blockForm (hblock s (Nat.le_refl _))
      | semicolon => exact settles_emptyForm hk
      | _ => exact settles_expressionForm
    | _ => exact settles_expressionForm

end Forms

/-- The readers of statements settle with `n` steps, and do the same with `d` more. -/
structure SteadyStatement (d n : Nat) : Prop where
  statement : ∀ {s : ParserState}, 16 * s.tokens.length + 2 ≤ n →
    Settles s.tokens.length (statementLevel n) (statementLevel (d + n)) s
  block : ∀ {s : ParserState}, 16 * s.tokens.length + 1 ≤ n →
    Settles s.tokens.length (blockLevel n) (blockLevel (d + n)) s
  body : ∀ {s : ParserState}, 16 * s.tokens.length + 3 ≤ n →
    Settles (s.tokens.length + 1) (blockBody n) (blockBody (d + n)) s

theorem settles_statementLevel (ih : SteadyStatement d n) (hn : 16 * s.tokens.length + 1 ≤ n) :
    Settles s.tokens.length (statementLevel (n + 1)) (statementLevel (d + n + 1)) s := by
  unfold statementLevel
  refine .peekKind (settles_form (fun s₁ h₁ => ?_) fun s₁ h₁ => ?_)
  · exact ih.statement (by omega)
  · exact ih.block (by omega)

theorem settles_blockLevel (ih : SteadyStatement d n) (hn : 16 * s.tokens.length ≤ n) :
    Settles s.tokens.length (blockLevel (n + 1)) (blockLevel (d + n + 1)) s := by
  unfold blockLevel
  refine .bind .expect fun _ s₁ h₁ => (ih.body (by omega)).bind fun inner s₂ h₂ => ?_
  exact .bind .expect fun _ s₃ h₃ => .pure (by omega)

theorem settles_blockBody (ih : SteadyStatement d n) (hn : 16 * s.tokens.length + 2 ≤ n) :
    Settles (s.tokens.length + 1) (blockBody (n + 1)) (blockBody (d + n + 1)) s := by
  unfold blockBody
  refine .atKind (.ite (fun _ => .pure (Nat.lt_succ_self _)) fun _ => ?_)
  refine .atKind (.ite (fun _ => .here (.throw rfl)) fun _ => ?_)
  refine (ih.statement hn).bind fun first s₁ h₁ => ?_
  exact (ih.body (by omega)).bind fun rest s₂ h₂ => .pure (by omega)

theorem steadyStatement (d : Nat) : ∀ n, SteadyStatement d n
  | 0 =>
    { statement := fun hn => absurd hn (Nat.not_succ_le_zero _)
      block := fun hn => absurd hn (Nat.not_succ_le_zero _)
      body := fun hn => absurd hn (Nat.not_succ_le_zero _) }
  | n + 1 =>
    { statement := fun hn =>
        settles_statementLevel (steadyStatement d n) (Nat.le_of_succ_le_succ hn)
      block := fun hn => settles_blockLevel (steadyStatement d n) (Nat.le_of_succ_le_succ hn)
      body := fun hn => settles_blockBody (steadyStatement d n) (Nat.le_of_succ_le_succ hn) }

theorem settles_statements (d : Nat) : ∀ (n : Nat) {s : ParserState}, s.tokens.length < n →
    Settles (s.tokens.length + 1) (statements n) (statements (d + n)) s
  | 0, s, hn => absurd hn (Nat.not_lt_zero _)
  | n + 1, s, hn => by
    show Settles _ (statements (n + 1)) (statements (d + n + 1)) s
    unfold statements
    refine .atKind (.ite (fun _ => .pure (Nat.lt_succ_self _)) fun _ => ?_)
    have hfirst := (steadyStatement 0 (steps s)).statement (s := s) (by unfold steps; omega)
    refine hfirst.withSteps.bind fun first s₁ h₁ => ?_
    exact (settles_statements d n (by omega)).bind fun rest s₂ h₂ => .pure (by omega)

end DecimalLift.Parse
