import DecimalLift.Parse.Ascription
import DecimalLift.Proofs.Parse.State

/-!
# What can come of a reader

The grammar says what the readers return where they succeed. This file is about every outcome: where
a failure leaves the queue, and that no reader fails for want of steps.

* `Outcome m s r` — the result `r` of a reader that was started in `s`: it has taken tokens from the
  front of the queue and made nodes, fewer than `m` tokens are left after a success, and a failure
  has another reason than the budget.
* `Settles m p q s` — two readers do the same in `s`, and with such an outcome. They are one reader
  with two budgets, or without any.
* `Settles.bind` — the rule for sequences, and next to it the rules for the steps that readers are
  made of.
-/

set_option autoImplicit false

namespace DecimalLift

/-- The steps of a reader were used up. -/
def ParseError.ranOut : ParseError → Bool
  | .outOfSteps _ => true
  | _ => false

namespace Parse

variable {α β : Type} {m k : Nat} {s s₁ : ParserState}

/-- The result of a reader that was started in `s`; a success leaves fewer than `m` tokens. -/
inductive Outcome (m : Nat) (s : ParserState) : EStateM.Result ParseError ParserState α → Prop
  | ok {a : α} {s' : ParserState} (hleads : s.Leads s') (hlength : s'.tokens.length < m) :
      Outcome m s (.ok a s')
  | error {e : ParseError} {s' : ParserState} (hleads : s.Leads s')
      (hsteps : e.ranOut = false) : Outcome m s (.error e s')

/-- The readers `p` and `q` do the same in `s`, and leave fewer than `m` tokens if they succeed. -/
structure Settles (m : Nat) (p q : Parse α) (s : ParserState) : Prop where
  same : p s = q s
  outcome : Outcome m s (p s)

theorem Outcome.before {r : EStateM.Result ParseError ParserState α} (hleads : s.Leads s₁)
    (h : Outcome m s₁ r) : Outcome m s r := by
  cases h with
  | ok h hlength => exact .ok (hleads.trans h) hlength
  | error h hsteps => exact .error (hleads.trans h) hsteps

theorem Outcome.mono {r : EStateM.Result ParseError ParserState α} (h : Outcome k s r)
    (hk : k ≤ m) : Outcome m s r := by
  cases h with
  | ok h hlength => exact .ok h (Nat.lt_of_lt_of_le hlength hk)
  | error h hsteps => exact .error h hsteps

/-- A reader settles if it does so with the steps that go with the queue. -/
theorem Settles.withSteps {p : Nat → Parse α} {q : Parse α} (h : Settles m (p (steps s)) q s) :
    Settles m (withSteps p) (withSteps p) s :=
  ⟨rfl, h.outcome⟩

namespace Settles

variable {p q : Parse α} {f g : α → Parse β}

theorem mono (h : Settles k p q s) (hk : k ≤ m) : Settles m p q s := ⟨h.same, h.outcome.mono hk⟩

theorem pure {a : α} (h : s.tokens.length < m) : Settles m (pure a) (pure a) s :=
  ⟨rfl, .ok .refl h⟩

theorem throw {e : ParseError} (h : e.ranOut = false) :
    Settles m (throw e : Parse α) (throw e) s :=
  ⟨rfl, .error .refl h⟩

/-- **A sequence settles if its steps do.** -/
theorem bind (h : Settles k p q s)
    (hrest : ∀ a s₁, s₁.tokens.length < k → Settles m (f a) (g a) s₁) :
    Settles m (p >>= f) (q >>= g) s := by
  have hsame := h.same
  have houtcome := h.outcome
  cases hp : p s with
  | error e s₁ =>
    rw [hp] at hsame houtcome
    refine ⟨by rw [bind_of_error hp, bind_of_error hsame.symm], ?_⟩
    rw [bind_of_error hp]
    cases houtcome with
    | error hleads hsteps => exact .error hleads hsteps
  | ok a s₁ =>
    rw [hp] at hsame houtcome
    cases houtcome with
    | ok hleads hlength =>
      have hsettles := hrest a s₁ hlength
      refine ⟨by rw [bind_of_ok hp, bind_of_ok hsame.symm, hsettles.same], ?_⟩
      rw [bind_of_ok hp]
      exact hsettles.outcome.before hleads

/-- A step that always succeeds. -/
theorem step {a : α} (hp : p s = .ok a s₁) (hleads : s.Leads s₁) (h : Settles m (f a) (g a) s₁) :
    Settles m (p >>= f) (p >>= g) s := by
  refine ⟨by rw [bind_of_ok hp, bind_of_ok hp, h.same], ?_⟩
  rw [bind_of_ok hp]
  exact h.outcome.before hleads

/-! ## Looking, and making nodes -/

theorem here {f g : Location → Parse β} (h : Settles m (f s.here) (g s.here) s) :
    Settles m (here >>= f) (here >>= g) s :=
  step here_eq .refl h

theorem peek {f g : Option Token → Parse β}
    (h : Settles m (f s.tokens.head?) (g s.tokens.head?) s) :
    Settles m (peek? >>= f) (peek? >>= g) s :=
  step rfl .refl h

theorem peekKind {f g : Option TokenKind → Parse β} (h : Settles m (f s.kind?) (g s.kind?) s) :
    Settles m (peekKind? >>= f) (peekKind? >>= g) s :=
  step rfl .refl h

theorem atKind {kind : TokenKind} {f g : Bool → Parse β}
    (h : Settles m (f (s.isAt kind)) (g (s.isAt kind)) s) :
    Settles m (at? kind >>= f) (at? kind >>= g) s :=
  step (at?_eq kind) .refl h

theorem node {span : Span} {f g : Node → Parse β}
    (h : ∀ made s₁, s₁.tokens.length ≤ s.tokens.length → Settles m (f made) (g made) s₁) :
    Settles m (node span >>= f) (node span >>= g) s :=
  step rfl (.grown .refl) (h _ s.grown (Nat.le_refl _))

theorem nodeFrom {start : Location} {f g : Node → Parse β}
    (h : ∀ made s₁, s₁.tokens.length ≤ s.tokens.length → Settles m (f made) (g made) s₁) :
    Settles m (nodeFrom start >>= f) (nodeFrom start >>= g) s :=
  step rfl (.grown .refl) (h _ s.grown (Nat.le_refl _))

/-- A tree that ends with the last token. -/
theorem made {start : Location} {e : Node → α} (h : s.tokens.length < m) :
    Settles m (Parse.nodeFrom start >>= fun made => Pure.pure (e made))
      (Parse.nodeFrom start >>= fun made => Pure.pure (e made)) s :=
  nodeFrom fun _ _ h₁ => pure (Nat.lt_of_le_of_lt h₁ h)

/-! ## Taking tokens and choosing -/

theorem ite {c : Prop} [Decidable c] {p p' q q' : Parse β} (hyes : c → Settles m p p' s)
    (hno : ¬c → Settles m q q' s) :
    Settles m (if c then p else q) (if c then p' else q') s := by
  by_cases h : c
  · rw [if_pos h, if_pos h]
    exact hyes h
  · rw [if_neg h, if_neg h]
    exact hno h

theorem advance {f g : Option Token → Parse β} (hnone : Settles m (f none) (g none) s)
    (hsome : ∀ t s₁, s₁.tokens.length < s.tokens.length →
      Settles m (f (some t)) (g (some t)) s₁) :
    Settles m (advance? >>= f) (advance? >>= g) s := by
  cases hs : s.tokens with
  | nil =>
    have hstep : advance? s = .ok none s := by unfold advance?; rw [hs]
    exact step hstep .refl hnone
  | cons t ts =>
    refine step (advance?_of_tokens hs) (.past hs .refl) (hsome t _ ?_)
    rw [hs]
    exact Nat.lt_succ_self ts.length

theorem advanceKind {f g : Option TokenKind → Parse β} (hnone : Settles m (f none) (g none) s)
    (hsome : ∀ k s₁, s₁.tokens.length < s.tokens.length →
      Settles m (f (some k)) (g (some k)) s₁) :
    Settles m (advanceKind? >>= f) (advanceKind? >>= g) s := by
  unfold advanceKind?
  simp only [bind_assoc, pure_bind]
  exact advance hnone fun t => hsome t.kind

/-- The next token is known to be there, and is passed over. -/
theorem skip {k : TokenKind} {p q : Parse β} (hk : s.kind? = some k)
    (h : ∀ s₁, s₁.tokens.length < s.tokens.length → Settles m p q s₁) :
    Settles m (advance? >>= fun _ => p) (advance? >>= fun _ => q) s := by
  obtain ⟨t, ts, hs, -⟩ := ParserState.exists_of_kind? hk
  refine step (advance?_of_tokens hs) (.past hs .refl) (h _ ?_)
  rw [hs]
  exact Nat.lt_succ_self ts.length

theorem failAtEnd {expected : Expected} :
    Settles m (failAtEnd expected : Parse α) (failAtEnd expected) s :=
  ⟨rfl, .error .refl rfl⟩

theorem expect {k : TokenKind} {context : String} :
    Settles s.tokens.length (expect k context) (expect k context) s := by
  refine advance failAtEnd fun t s₁ h₁ => ?_
  refine ite (fun _ => throw rfl) fun _ => ite (fun _ => pure h₁) fun _ => throw rfl

theorem expectIdentifier {context : String} :
    Settles s.tokens.length (expectIdentifier context) (expectIdentifier context) s := by
  refine advance failAtEnd fun t s₁ h₁ => ?_
  simp only
  cases t.kind with
  | identifier name => exact pure h₁
  | _ => exact throw rfl

theorem expectWord {spelling context : String} :
    Settles s.tokens.length (expectWord spelling context) (expectWord spelling context) s := by
  refine advance failAtEnd fun t s₁ h₁ => ?_
  exact ite (fun _ => pure h₁) fun _ => throw rfl

theorem accept {k : TokenKind} {p p' q q' : Parse β} (hk : k ≠ .endOfFile)
    (hyes : ∀ s₁, s₁.tokens.length < s.tokens.length → Settles m p p' s₁)
    (hno : Settles m q q' s) :
    Settles m (accept k >>= fun b => if b = true then p else q)
      (accept k >>= fun b => if b = true then p' else q') s := by
  by_cases h : s.kind? = some k
  · obtain ⟨t, ts, hs, ht⟩ := ParserState.exists_of_kind? h
    refine step (accept_of_eq hk hs ht) (.past hs .refl) (hyes _ ?_)
    rw [hs]
    exact Nat.lt_succ_self ts.length
  · exact step (accept_of_ne hk h) .refl hno

theorem endStatement {context : String} :
    Settles (s.tokens.length + 1) (endStatement context) (endStatement context) s := by
  refine accept (by decide) (fun s₁ h₁ => pure (Nat.lt_succ_of_lt h₁)) (peek ?_)
  cases s.tokens.head? with
  | none => exact pure (Nat.lt_succ_self _)
  | some t =>
    exact ite (fun _ => pure (Nat.lt_succ_self _)) fun _ => expect.mono (Nat.le_succ _)

/-- The end of a list of type arguments may leave as many tokens as it finds. -/
theorem closeAngle : Settles (s.tokens.length + 1) closeAngle closeAngle s := by
  refine ⟨rfl, ?_⟩
  unfold Parse.closeAngle
  cases hs : s.tokens with
  | nil =>
    simp only
    exact expect.outcome.mono (by simp [hs])
  | cons t ts =>
    simp only
    by_cases hk : t.kind = .symbol .rightShift
    · rw [if_pos hk]
      exact .ok (.half hs hk .refl) (by simp)
    · rw [if_neg hk]
      exact expect.outcome.mono (by simp [hs])

end Settles

end Parse

end DecimalLift
