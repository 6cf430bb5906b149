import DecimalLift.Parse.State
import DecimalLift.Proofs.Sequence

/-!
# Readers, one step at a time

Every reader is a sequence of a few primitive steps. This file says once what each of them does to
a state, so that no later proof opens them.

* `ParserState.past`, `ParserState.grown` — the state behind a token and the state with one more
  node; `Parse.advance?_bind`, `Parse.node_bind` and their fellows lead there.
* `Parse.expect_bind_eq_ok`, `Parse.accept_bind_eq_ok`, … — when a sequence that starts with a step
  that can fail or choose succeeds.
* `ParserState.Takes` — the next token is of a kind, and what is behind it.
* `ParserState.Leads` — all that a reader can do to a state. What every step preserves, every reader
  preserves.
* `ParserState.Skips` — the same without nodes: tokens are taken and no node is made.
-/

set_option autoImplicit false

namespace DecimalLift

/-- What is left of a token `>>` when its first half was taken. -/
def Token.secondHalf (t : Token) : Token :=
  { t with
    kind := .symbol .greater
    span := { t.span with start := { t.span.start with column := t.span.start.column + 1 } } }

namespace ParserState

/-- The state behind its first token `t`, with `ts` left. -/
def past (s : ParserState) (t : Token) (ts : List Token) : ParserState :=
  { s with tokens := ts, lastEnd := t.span.stop }

/-- The state after one more node was made. -/
def grown (s : ParserState) : ParserState := { s with nextId := s.nextId + 1 }

/-- The kind of the next token. -/
def kind? (s : ParserState) : Option TokenKind := s.tokens.head?.map (·.kind)

/-- Where the next token starts, or where the last one ended. -/
def here (s : ParserState) : Location :=
  match s.tokens with
  | t :: _ => t.span.start
  | [] => s.lastEnd

/-- The node that is made next, for the stretch from `start` to the last token. -/
def nodeFrom (s : ParserState) (start : Location) : Node := ⟨s.nextId, ⟨start, s.lastEnd⟩⟩

/-- Whether the next token is of a kind; an empty queue stands at the end of file. -/
def isAt (s : ParserState) (kind : TokenKind) : Bool :=
  match s.tokens with
  | t :: _ => t.kind = kind
  | [] => kind = .endOfFile

@[simp] theorem past_tokens (s : ParserState) (t : Token) (ts : List Token) :
    (s.past t ts).tokens = ts := rfl

@[simp] theorem grown_tokens (s : ParserState) : s.grown.tokens = s.tokens := rfl

theorem kind?_of_tokens {s : ParserState} {t : Token} {ts : List Token} (h : s.tokens = t :: ts) :
    s.kind? = some t.kind := by
  simp [kind?, h]

theorem here_of_tokens {s : ParserState} {t : Token} {ts : List Token} (h : s.tokens = t :: ts) :
    s.here = t.span.start := by
  simp [here, h]

theorem exists_of_kind? {s : ParserState} {k : TokenKind} (h : s.kind? = some k) :
    ∃ t ts, s.tokens = t :: ts ∧ t.kind = k := by
  unfold kind? at h
  cases hs : s.tokens with
  | nil => rw [hs] at h; cases h
  | cons t ts =>
    rw [hs] at h
    exact ⟨t, ts, rfl, Option.some.inj h⟩

theorem exists_of_bind_kind? {α : Type} {s : ParserState} {f : TokenKind → Option α} {a : α}
    (h : s.kind?.bind f = some a) : ∃ t ts, s.tokens = t :: ts ∧ f t.kind = some a := by
  obtain ⟨k, hk, hf⟩ := Option.bind_eq_some_iff.1 h
  obtain ⟨t, ts, hs, rfl⟩ := exists_of_kind? hk
  exact ⟨t, ts, hs, hf⟩

theorem isAt_eq_true {s : ParserState} {k : TokenKind} (hk : k ≠ .endOfFile) :
    s.isAt k = true ↔ s.kind? = some k := by
  unfold isAt kind?
  cases s.tokens with
  | nil => simp [hk]
  | cons t ts => simp

theorem isAt_eq_false {s : ParserState} {k : TokenKind} (hk : k ≠ .endOfFile) :
    s.isAt k = false ↔ s.kind? ≠ some k := by
  rw [ne_eq, ← isAt_eq_true hk, Bool.not_eq_true]

/-- The next token is of a kind, and `s'` is the state behind it. -/
def Takes (s : ParserState) (k : TokenKind) (s' : ParserState) : Prop :=
  ∃ t ts, s.tokens = t :: ts ∧ t.kind = k ∧ s' = s.past t ts

theorem Takes.kind? {s s' : ParserState} {k : TokenKind} (h : s.Takes k s') : s.kind? = some k := by
  obtain ⟨t, ts, ht, hk, -⟩ := h
  rw [kind?_of_tokens ht, hk]

theorem Takes.length {s s' : ParserState} {k : TokenKind} (h : s.Takes k s') :
    s.tokens.length = s'.tokens.length + 1 := by
  obtain ⟨t, ts, ht, -, rfl⟩ := h
  rw [ht, past_tokens, List.length_cons]

theorem takes_of_kind? {s : ParserState} {k : TokenKind} (h : s.kind? = some k) :
    ∃ s', s.Takes k s' := by
  obtain ⟨t, ts, ht, hk⟩ := exists_of_kind? h
  exact ⟨_, t, ts, ht, hk, rfl⟩

/-- What readers do to a state: they take a token, take the first half of a token `>>`, or make a
node, one after another. -/
inductive Leads : ParserState → ParserState → Prop
  | refl {s : ParserState} : Leads s s
  | past {s s' : ParserState} {t : Token} {ts : List Token} (ht : s.tokens = t :: ts)
      (h : Leads (s.past t ts) s') : Leads s s'
  | half {s s' : ParserState} {t : Token} {ts : List Token} (ht : s.tokens = t :: ts)
      (hk : t.kind = .symbol .rightShift)
      (h : Leads { s with tokens := t.secondHalf :: ts } s') : Leads s s'
  | grown {s s' : ParserState} (h : Leads s.grown s') : Leads s s'

namespace Leads

variable {s s₁ s' : ParserState}

theorem trans (h : Leads s s₁) (h' : Leads s₁ s') : Leads s s' := by
  induction h with
  | refl => exact h'
  | past ht _ ih => exact .past ht (ih h')
  | half ht hk _ ih => exact .half ht hk (ih h')
  | grown _ ih => exact .grown (ih h')

theorem andPast {t : Token} {ts : List Token} (h : Leads s s₁) (ht : s₁.tokens = t :: ts) :
    Leads s (s₁.past t ts) :=
  h.trans (.past ht .refl)

theorem andGrown (h : Leads s s₁) : Leads s s₁.grown := h.trans (.grown .refl)

theorem length (h : Leads s s') : s'.tokens.length ≤ s.tokens.length := by
  induction h with
  | refl => exact Nat.le_refl _
  | past ht _ ih =>
    rw [ht, List.length_cons]
    exact Nat.le_succ_of_le ih
  | half ht _ _ ih =>
    rw [ht]
    exact ih
  | grown _ ih => exact ih

theorem file (h : Leads s s') : s'.file = s.file := by
  induction h with
  | refl => rfl
  | past _ _ ih | half _ _ _ ih | grown _ ih => exact ih

end Leads

theorem Takes.leads {s s' : ParserState} {k : TokenKind} (h : s.Takes k s') : s.Leads s' := by
  obtain ⟨t, ts, ht, -, rfl⟩ := h
  exact .past ht .refl

/-- Tokens are taken from the queue and no node is made. -/
structure Skips (s s' : ParserState) : Prop where
  leads : s.Leads s'
  nextId : s'.nextId = s.nextId

theorem Skips.refl {s : ParserState} : s.Skips s := ⟨.refl, rfl⟩

theorem Skips.trans {s s₁ s' : ParserState} (h : s.Skips s₁) (h' : s₁.Skips s') : s.Skips s' :=
  ⟨h.leads.trans h'.leads, h'.nextId.trans h.nextId⟩

theorem Skips.past {s : ParserState} {t : Token} {ts : List Token} (ht : s.tokens = t :: ts) :
    s.Skips (s.past t ts) :=
  ⟨.past ht .refl, rfl⟩

theorem Takes.skips {s s' : ParserState} {k : TokenKind} (h : s.Takes k s') : s.Skips s' := by
  obtain ⟨t, ts, ht, -, rfl⟩ := h
  exact .past ht

/-- What a reader that takes at least one token does to a state. -/
structure Consumes (s s' : ParserState) : Prop where
  leads : s.Leads s'
  length : s'.tokens.length < s.tokens.length

theorem Takes.consumes {s s₁ s' : ParserState} {k : TokenKind} (h : s.Takes k s₁)
    (h' : s₁.Leads s') : s.Consumes s' := by
  refine ⟨h.leads.trans h', ?_⟩
  rw [h.length]
  exact Nat.lt_succ_of_le h'.length

theorem Consumes.andLeads {s s₁ s' : ParserState} (h : s.Consumes s₁) (h' : s₁.Leads s') :
    s.Consumes s' :=
  ⟨h.leads.trans h', Nat.lt_of_le_of_lt h'.length h.length⟩

end ParserState

namespace Parse

variable {α β : Type} {s s' : ParserState}

/-! ## Failing -/

theorem outOfSteps_ne_ok {b : α} : (outOfSteps : Parse α) s ≠ .ok b s' := by
  intro h
  obtain ⟨l, s₁, -, h⟩ := bind_eq_ok.1 h
  exact throw_ne_ok h

/-! ## Looking -/

theorem peek?_bind {f : Option Token → Parse β} : (peek? >>= f) s = f s.tokens.head? s := rfl

theorem peekKind?_bind {f : Option TokenKind → Parse β} : (peekKind? >>= f) s = f s.kind? s := rfl

theorem here_eq : here s = .ok s.here s := by
  unfold here ParserState.here
  split <;> simp [*]

theorem here_bind {f : Location → Parse β} : (here >>= f) s = f s.here s := bind_of_ok here_eq

theorem at?_eq (k : TokenKind) : at? k s = .ok (s.isAt k) s := by
  unfold at? ParserState.isAt
  split <;> simp [*]

theorem at?_bind {k : TokenKind} {f : Bool → Parse β} : (at? k >>= f) s = f (s.isAt k) s :=
  bind_of_ok (at?_eq k)

/-! ## Taking -/

theorem advance?_of_tokens {t : Token} {ts : List Token} (h : s.tokens = t :: ts) :
    advance? s = .ok (some t) (s.past t ts) := by
  unfold advance?
  rw [h]
  rfl

theorem advance?_bind {f : Option Token → Parse β} {t : Token} {ts : List Token}
    (h : s.tokens = t :: ts) : (advance? >>= f) s = f (some t) (s.past t ts) :=
  bind_of_ok (advance?_of_tokens h)

theorem expect_eq_ok {k : TokenKind} {context : String} {u : Unit} (hk : k ≠ .endOfFile) :
    expect k context s = .ok u s' ↔ ∃ t ts, s.tokens = t :: ts ∧ t.kind = k ∧ s' = s.past t ts := by
  unfold expect
  cases hs : s.tokens with
  | nil =>
    have : advance? s = .ok none s := by unfold advance?; rw [hs]
    rw [bind_of_ok this]
    constructor
    · intro h
      cases h
    · rintro ⟨t, ts, h, -⟩
      cases h
  | cons t ts =>
    rw [advance?_bind hs]
    simp only
    constructor
    · intro h
      split at h
      · cases h
      · split at h
        · rename_i heq
          cases h
          exact ⟨t, ts, rfl, heq, rfl⟩
        · cases h
    · rintro ⟨t', ts', h, hkind, rfl⟩
      cases h
      rw [if_neg (by rw [hkind]; exact hk), if_pos hkind]
      rfl

theorem expect_bind_eq_ok {k : TokenKind} {context : String} {f : Unit → Parse β} {b : β}
    (hk : k ≠ .endOfFile) : (expect k context >>= f) s = .ok b s' ↔
      ∃ t ts, s.tokens = t :: ts ∧ t.kind = k ∧ f () (s.past t ts) = .ok b s' := by
  rw [bind_eq_ok]
  constructor
  · rintro ⟨u, s₁, h, hf⟩
    obtain ⟨t, ts, hs, ht, rfl⟩ := (expect_eq_ok hk).1 h
    exact ⟨t, ts, hs, ht, hf⟩
  · rintro ⟨t, ts, hs, ht, hf⟩
    exact ⟨(), _, (expect_eq_ok hk).2 ⟨t, ts, hs, ht, rfl⟩, hf⟩

theorem expect_bind {k : TokenKind} {context : String} {f : Unit → Parse β} {t : Token}
    {ts : List Token} (h : s.tokens = t :: ts) (hk : t.kind = k) (hend : k ≠ .endOfFile) :
    (expect k context >>= f) s = f () (s.past t ts) :=
  bind_of_ok ((expect_eq_ok hend).2 ⟨t, ts, h, hk, rfl⟩)

theorem expectIdentifier_eq_ok {context name : String} :
    expectIdentifier context s = .ok name s' ↔
      ∃ t ts, s.tokens = t :: ts ∧ t.kind = .identifier name ∧ s' = s.past t ts := by
  unfold expectIdentifier
  cases hs : s.tokens with
  | nil =>
    have : advance? s = .ok none s := by unfold advance?; rw [hs]
    rw [bind_of_ok this]
    constructor
    · intro h
      cases h
    · rintro ⟨t, ts, h, -⟩
      cases h
  | cons t ts =>
    rw [advance?_bind hs]
    simp only
    constructor
    · intro h
      cases hkind : t.kind with
      | identifier name' =>
        rw [hkind] at h
        cases h
        exact ⟨t, ts, rfl, hkind, rfl⟩
      | _ => rw [hkind] at h; cases h
    · rintro ⟨t', ts', h, hkind, rfl⟩
      cases h
      rw [hkind]
      rfl

theorem expectIdentifier_bind_eq_ok {context : String} {f : String → Parse β} {b : β} :
    (expectIdentifier context >>= f) s = .ok b s' ↔ ∃ t ts name,
      s.tokens = t :: ts ∧ t.kind = .identifier name ∧ f name (s.past t ts) = .ok b s' := by
  rw [bind_eq_ok]
  constructor
  · rintro ⟨name, s₁, h, hf⟩
    obtain ⟨t, ts, hs, ht, rfl⟩ := expectIdentifier_eq_ok.1 h
    exact ⟨t, ts, name, hs, ht, hf⟩
  · rintro ⟨t, ts, name, hs, ht, hf⟩
    exact ⟨name, _, expectIdentifier_eq_ok.2 ⟨t, ts, hs, ht, rfl⟩, hf⟩

theorem expectIdentifier_bind {context name : String} {f : String → Parse β} {t : Token}
    {ts : List Token} (h : s.tokens = t :: ts) (hk : t.kind = .identifier name) :
    (expectIdentifier context >>= f) s = f name (s.past t ts) :=
  bind_of_ok (expectIdentifier_eq_ok.2 ⟨t, ts, h, hk, rfl⟩)

theorem accept_of_ne {k : TokenKind} (hend : k ≠ .endOfFile) (h : s.kind? ≠ some k) :
    accept k s = .ok false s := by
  unfold accept
  rw [at?_bind, (ParserState.isAt_eq_false hend).2 h]
  rfl

theorem accept_of_eq {k : TokenKind} {t : Token} {ts : List Token} (hend : k ≠ .endOfFile)
    (h : s.tokens = t :: ts) (hk : t.kind = k) : accept k s = .ok true (s.past t ts) := by
  unfold accept
  rw [at?_bind, (ParserState.isAt_eq_true hend).2 (by rw [ParserState.kind?_of_tokens h, hk])]
  rw [if_pos rfl, advance?_bind h]
  rfl

theorem accept_bind_eq_ok {k : TokenKind} {f : Bool → Parse β} {b : β} (hend : k ≠ .endOfFile) :
    (accept k >>= f) s = .ok b s' ↔ s.kind? ≠ some k ∧ f false s = .ok b s' ∨
      ∃ t ts, s.tokens = t :: ts ∧ t.kind = k ∧ f true (s.past t ts) = .ok b s' := by
  by_cases hk : s.kind? = some k
  · obtain ⟨t, ts, hs, ht⟩ := ParserState.exists_of_kind? hk
    rw [bind_of_ok (accept_of_eq hend hs ht)]
    constructor
    · intro h
      exact Or.inr ⟨t, ts, hs, ht, h⟩
    · rintro (⟨hne, -⟩ | ⟨t', ts', hs', -, h⟩)
      · exact absurd hk hne
      · rw [hs] at hs'
        cases hs'
        exact h
  · rw [bind_of_ok (accept_of_ne hend hk)]
    constructor
    · intro h
      exact Or.inl ⟨hk, h⟩
    · rintro (⟨-, h⟩ | ⟨t, ts, hs, ht, -⟩)
      · exact h
      · rw [ParserState.kind?_of_tokens hs, ht] at hk
        exact absurd rfl hk

/-! The same steps, with the state behind the token in place of the token. -/

open ParserState (Takes)

theorem expect_bind_takes {k : TokenKind} {context : String} {f : Unit → Parse β} {b : β}
    (hk : k ≠ .endOfFile) : (expect k context >>= f) s = .ok b s' ↔
      ∃ s₁, s.Takes k s₁ ∧ f () s₁ = .ok b s' := by
  rw [expect_bind_eq_ok hk]
  constructor
  · rintro ⟨t, ts, ht, hkind, hf⟩
    exact ⟨_, ⟨t, ts, ht, hkind, rfl⟩, hf⟩
  · rintro ⟨_, ⟨t, ts, ht, hkind, rfl⟩, hf⟩
    exact ⟨t, ts, ht, hkind, hf⟩

theorem expectIdentifier_bind_takes {context : String} {f : String → Parse β} {b : β} :
    (expectIdentifier context >>= f) s = .ok b s' ↔
      ∃ name s₁, s.Takes (.identifier name) s₁ ∧ f name s₁ = .ok b s' := by
  rw [expectIdentifier_bind_eq_ok]
  constructor
  · rintro ⟨t, ts, name, ht, hkind, hf⟩
    exact ⟨name, _, ⟨t, ts, ht, hkind, rfl⟩, hf⟩
  · rintro ⟨name, _, ⟨t, ts, ht, hkind, rfl⟩, hf⟩
    exact ⟨t, ts, name, ht, hkind, hf⟩

theorem expectWord_bind_takes {spelling context : String} {f : Unit → Parse β} {b : β} :
    (expectWord spelling context >>= f) s = .ok b s' ↔
      ∃ s₁, s.Takes (.identifier spelling) s₁ ∧ f () s₁ = .ok b s' := by
  have hword : ∀ {u s₁}, expectWord spelling context s = .ok u s₁ ↔
      s.Takes (.identifier spelling) s₁ := by
    intro u s₁
    unfold expectWord ParserState.Takes
    cases hs : s.tokens with
    | nil =>
      have : advance? s = .ok none s := by unfold advance?; rw [hs]
      rw [bind_of_ok this]
      constructor
      · intro h
        cases h
      · rintro ⟨t, ts, h, -⟩
        cases h
    | cons t ts =>
      rw [advance?_bind hs]
      simp only
      constructor
      · intro h
        split at h
        · rename_i heq
          cases h
          exact ⟨t, ts, rfl, heq, rfl⟩
        · cases h
      · rintro ⟨t', ts', h, hkind, rfl⟩
        cases h
        rw [if_pos hkind]
        rfl
  rw [bind_eq_ok]
  constructor
  · rintro ⟨u, s₁, h, hf⟩
    exact ⟨s₁, hword.1 h, hf⟩
  · rintro ⟨s₁, h, hf⟩
    exact ⟨(), s₁, hword.2 h, hf⟩

theorem accept_bind_takes {k : TokenKind} {f : Bool → Parse β} {b : β} (hend : k ≠ .endOfFile) :
    (accept k >>= f) s = .ok b s' ↔ s.kind? ≠ some k ∧ f false s = .ok b s' ∨
      ∃ s₁, s.Takes k s₁ ∧ f true s₁ = .ok b s' := by
  rw [accept_bind_eq_ok hend]
  refine or_congr Iff.rfl ?_
  constructor
  · rintro ⟨t, ts, ht, hkind, hf⟩
    exact ⟨_, ⟨t, ts, ht, hkind, rfl⟩, hf⟩
  · rintro ⟨_, ⟨t, ts, ht, hkind, rfl⟩, hf⟩
    exact ⟨t, ts, ht, hkind, hf⟩

/-- A choice by the next token. -/
theorem at?_ite_eq_ok {k : TokenKind} {p q : Parse β} {b : β} (hend : k ≠ .endOfFile) :
    (at? k >>= fun found => if found = true then p else q) s = .ok b s' ↔
      s.kind? = some k ∧ p s = .ok b s' ∨ s.kind? ≠ some k ∧ q s = .ok b s' := by
  rw [at?_bind]
  by_cases hk : s.kind? = some k
  · rw [if_pos ((ParserState.isAt_eq_true hend).2 hk)]
    simp [hk]
  · rw [if_neg (by rw [(ParserState.isAt_eq_false hend).2 hk]; decide)]
    simp [hk]

theorem skip_bind {k : TokenKind} {s₁ : ParserState} {p : Parse β} (h : s.Takes k s₁) :
    (advance? >>= fun _ => p) s = p s₁ := by
  obtain ⟨t, ts, ht, -, rfl⟩ := h
  exact advance?_bind ht

/-! ## Making nodes -/

theorem node_bind {span : Span} {f : Node → Parse β} :
    (node span >>= f) s = f ⟨s.nextId, span⟩ s.grown := rfl

theorem nodeFrom_bind {start : Location} {f : Node → Parse β} :
    (nodeFrom start >>= f) s = f (s.nodeFrom start) s.grown := rfl

/-! ## Steps -/

theorem length_lt_steps (s : ParserState) : s.tokens.length < steps s := by
  unfold steps
  omega

theorem withSteps_bind {p : Nat → Parse α} {f : α → Parse β} :
    (withSteps p >>= f) s = (p (steps s) >>= f) s := rfl

end Parse

end DecimalLift
