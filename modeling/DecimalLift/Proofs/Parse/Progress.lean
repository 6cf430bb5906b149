import DecimalLift.Proofs.Parse.Settling

/-!
# Every call makes progress and stops

A queue can be read by any calls, one after another, and also behind a failure: the state is handed
on. Whatever the queue holds, each call comes to an end, takes its tokens from the front, and takes
at least one if it returns a statement, an expression or a type.

* `Entry` — the readers that can be called; `Entry.within` gives them a number of steps.
* `Entry.settles` — what comes of a call does not hang on the number of steps.
* `Remains` — what can be left of a queue.
* `Progress` — what a call does in a state, and `calls_progress`, that it does so behind any calls.
-/

set_option autoImplicit false

namespace DecimalLift.Parse

variable {s s' : ParserState}

/-! ## Calls -/

/-- The readers that can be called on a queue. -/
inductive Entry where
  | program
  | statement
  | expression
  | conditional
  | binary (least : Nat)
  | unary
  | trailing
  | callee
  | primary
  | ascription
  deriving DecidableEq, Repr

/-- What a call returns. -/
inductive Reading where
  | program (p : Program)
  | statement (st : Statement)
  | expression (e : Expression)
  | ascription (text : String)

namespace Entry

def run : Entry → Parse Reading
  | .program => do return .program (← Parse.program)
  | .statement => do return .statement (← Parse.statement)
  | .expression => do return .expression (← Parse.expression)
  | .conditional => do return .expression (← Parse.conditional)
  | .binary least => do return .expression (← Parse.binary least)
  | .unary => do return .expression (← Parse.unary)
  | .trailing => do return .expression (← Parse.trailing)
  | .callee => do return .expression (← Parse.callee)
  | .primary => do return .expression (← Parse.primary)
  | .ascription => do return .ascription (← Parse.ascription)

/-- The call with a number of steps, in place of the number that goes with the queue. -/
def within : Entry → Nat → Parse Reading
  | .program, n => do
    let start ← here
    let inner ← statements n
    let made ← nodeFrom start
    return .program ⟨made, (← get).file, inner, (← get).nextId⟩
  | .statement, n => do return .statement (← statementLevel n)
  | .expression, n => do return .expression (← assignmentLevel n)
  | .conditional, n => do return .expression (← conditionalLevel n)
  | .binary least, n => do return .expression (← binaryLevel n least)
  | .unary, n => do return .expression (← unaryLevel n)
  | .trailing, n => do return .expression (← trailingLevel n)
  | .callee, n => do return .expression (← callLevel n)
  | .primary, n => do return .expression (← primaryLevel n)
  | .ascription, n => do return .ascription (← unionType n)

/-- How many tokens a call takes at least. -/
def least : Entry → Nat
  | .program => 0
  | _ => 1

theorem run_eq_within (c : Entry) (s : ParserState) : c.run s = c.within (steps s) s := by
  cases c with
  | program =>
    simp only [run, within, Parse.program, bind_assoc, pure_bind]
    rw [here_bind, here_bind]
    exact withSteps_bind
  | _ => exact withSteps_bind

/-- **Every call settles** within the steps that go with its queue. -/
theorem settles (c : Entry) (d : Nat) (s : ParserState) :
    Settles (s.tokens.length + 1 - c.least) (c.within (steps s)) (c.within (d + steps s)) s := by
  have hsteps : 16 * s.tokens.length + 16 = steps s := rfl
  have hreader : ∀ r : Reader, r.least = 1 → Settles s.tokens.length
      (do return Reading.expression (← Parse.run r (steps s)))
      (do return Reading.expression (← Parse.run r (d + steps s))) s := by
    intro r hleast
    have hrank : r.rank ≤ 16 := by cases r <;> simp [Reader.rank]
    have h := (steady d (steps s)).run r (s := s) (by omega)
    rw [hleast] at h
    exact h.bind fun _ s₁ h₁ => .pure h₁
  cases c with
  | program =>
    refine .here ((settles_statements d (steps s) (by omega)).bind fun ss s₁ h₁ => ?_)
    refine .nodeFrom fun made s₂ h₂ => ?_
    refine .step rfl .refl (.step rfl .refl (.pure ?_))
    exact Nat.lt_of_le_of_lt h₂ h₁
  | statement =>
    refine ((steadyStatement d (steps s)).statement (by omega)).bind fun _ s₁ h₁ => .pure h₁
  | expression => exact hreader .assignment rfl
  | conditional => exact hreader .conditional rfl
  | binary least => exact hreader (.binary least) rfl
  | unary => exact hreader .unary rfl
  | trailing => exact hreader .trailing rfl
  | callee => exact hreader .call rfl
  | primary => exact hreader .primary rfl
  | ascription =>
    have h := steadyType d (steps s) .union (s := s) (by simp only [TypeReader.rank]; omega)
    exact h.bind fun _ s₁ h₁ => .pure h₁

theorem outcome (c : Entry) (s : ParserState) :
    Outcome (s.tokens.length + 1 - c.least) s (c.run s) := by
  rw [run_eq_within]
  exact (c.settles 0 s).outcome

/-- The state that a call leaves, whether it succeeds or fails. -/
def after (c : Entry) (s : ParserState) : ParserState :=
  match c.run s with
  | .ok _ s' => s'
  | .error _ s' => s'

theorem leads_after (c : Entry) (s : ParserState) : s.Leads (c.after s) := by
  have h := c.outcome s
  unfold after
  cases hr : c.run s with
  | ok r s' =>
    rw [hr] at h
    cases h with
    | ok hleads _ => exact hleads
  | error e s' =>
    rw [hr] at h
    cases h with
    | error hleads _ => exact hleads

/-- A program is read up to the end. -/
theorem isAt_of_run_program {r : Reading} (h : Entry.program.run s = .ok r s') :
    s'.isAt .endOfFile = true := by
  obtain ⟨p, s₁, hp, h⟩ := bind_eq_ok.1 h
  obtain ⟨-, rfl⟩ := pure_eq_ok.1 h
  obtain ⟨ss, s₂, hfile, -, rfl⟩ := program_eq_ok.1 hp
  exact hfile.isAt

end Entry

/-- The state that calls leave one after another. -/
def afterCalls (s : ParserState) (history : List Entry) : ParserState :=
  history.foldl (fun s c => c.after s) s

theorem leads_afterCalls (history : List Entry) : s.Leads (afterCalls s history) := by
  induction history generalizing s with
  | nil => exact .refl
  | cons c rest ih => exact (c.leads_after s).trans ih

/-! ## What is left -/

/-- What is left of a queue: its last tokens, where the first half of a token `>>` may be taken. -/
inductive Remains (queue : List Token) : List Token → Prop
  | last {left : List Token} (h : left <:+ queue) : Remains queue left
  | half {t : Token} {left : List Token} (h : t :: left <:+ queue)
      (hk : t.kind = .symbol .rightShift) : Remains queue (t.secondHalf :: left)

theorem Remains.cons {queue left : List Token} (t : Token) (h : Remains queue left) :
    Remains (t :: queue) left := by
  cases h with
  | last h => exact .last (h.trans (List.suffix_cons t queue))
  | half h hk => exact .half (h.trans (List.suffix_cons t queue)) hk

/-- A token that was halved is not halved again. -/
theorem Remains.of_half {t : Token} {queue left : List Token} (hk : t.kind = .symbol .rightShift)
    (h : Remains (t.secondHalf :: queue) left) : Remains (t :: queue) left := by
  cases h with
  | last h =>
    rcases List.suffix_cons_iff.1 h with rfl | h
    · exact .half List.suffix_rfl hk
    · exact Remains.cons t (.last h)
  | half h hk' =>
    rcases List.suffix_cons_iff.1 h with heq | h
    · cases heq
      cases hk'
    · exact Remains.cons t (.half h hk')

theorem remains_of_leads (h : s.Leads s') : Remains s.tokens s'.tokens := by
  induction h with
  | refl => exact .last List.suffix_rfl
  | past ht _ ih =>
    rw [ht]
    exact ih.cons _
  | half ht hk _ ih =>
    rw [ht]
    exact ih.of_half hk
  | grown _ ih => exact ih

/-! ## Progress -/

/-- What a call does in a state. -/
structure Progress (c : Entry) (s : ParserState) : Prop where
  /-- It comes to an end: steps beyond those that go with the queue change nothing. -/
  ends : ∀ n, steps s ≤ n → c.within n s = c.run s
  /-- It does not fail for want of steps. -/
  enough : ∀ l s', c.run s ≠ .error (.outOfSteps l) s'
  /-- It takes tokens from the front, whether it succeeds or fails. -/
  remains : Remains s.tokens (c.after s).tokens
  /-- A statement, an expression and a type take at least one token. -/
  consumes : c ≠ .program → ∀ r s', c.run s = .ok r s' → s'.tokens.length < s.tokens.length
  /-- A program is read to the end of the queue, or up to an end of file. -/
  finishes : c = .program → ∀ r s', c.run s = .ok r s' →
    s'.tokens = [] ∨ s'.kind? = some .endOfFile

theorem progress (c : Entry) (s : ParserState) : Progress c s := by
  have houtcome := c.outcome s
  refine ⟨fun n hn => ?_, fun l s' hr => ?_, remains_of_leads (c.leads_after s),
    fun hc r s' hr => ?_, fun hc r s' hr => ?_⟩
  · obtain ⟨d, rfl⟩ := Nat.exists_eq_add_of_le' hn
    rw [c.run_eq_within]
    exact (c.settles d s).same.symm
  · rw [hr] at houtcome
    cases houtcome with
    | error _ hsteps => cases hsteps
  · have hleast : c.least = 1 := by
      cases c with
      | program => exact absurd rfl hc
      | _ => rfl
    rw [hr, hleast] at houtcome
    cases houtcome with
    | ok _ hlength => exact hlength
  · subst hc
    have hend := Entry.isAt_of_run_program hr
    unfold ParserState.isAt at hend
    cases htokens : s'.tokens with
    | nil => exact Or.inl rfl
    | cons t ts =>
      rw [htokens] at hend
      refine Or.inr ?_
      rw [ParserState.kind?_of_tokens htokens, of_decide_eq_true hend]

/-- **Every call makes progress and stops**, behind any calls, failures among them. What these have
left of the given tokens, less line ends and comments, are the last ones. -/
theorem calls_progress (tokens : List Token) (file : String) (history : List Entry) :
    Remains (significant false tokens) (afterCalls (.ofTokens tokens file) history).tokens ∧
      ∀ c, Progress c (afterCalls (.ofTokens tokens file) history) := by
  have hleads := leads_afterCalls (s := .ofTokens tokens file) history
  exact ⟨remains_of_leads hleads, fun c => progress c _⟩

end DecimalLift.Parse
