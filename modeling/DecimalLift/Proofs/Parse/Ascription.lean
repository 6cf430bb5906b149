import DecimalLift.Parse.Ascription
import DecimalLift.Proofs.Parse.State

/-!
# The grammar of ascriptions

Like expressions, ascriptions are read with a budget of steps, and like there the readers are
described by a relation without one.

* `ParserState.Closes` — the end of a list of type arguments: a token `>`, or one half of `>>`.
* `TypeReader`, `ReadsType` — the readers and what they take.
* `ascription_eq_ok` — the budget of `Parse.ascription` is always enough, so it is the relation.
-/

set_option autoImplicit false

namespace DecimalLift

/-- A list of type arguments ends in front of `s`, and `s'` is what is left. -/
inductive ParserState.Closes : ParserState → ParserState → Prop
  | whole {s : ParserState} {t : Token} {ts : List Token} (ht : s.tokens = t :: ts)
      (hk : t.kind = .symbol .greater) : Closes s (s.past t ts)
  | half {s : ParserState} {t : Token} {ts : List Token} (ht : s.tokens = t :: ts)
      (hk : t.kind = .symbol .rightShift) : Closes s { s with tokens := t.secondHalf :: ts }

theorem ParserState.Closes.skips {s s' : ParserState} (h : s.Closes s') : s.Skips s' := by
  cases h with
  | whole ht _ => exact .past ht
  | half ht hk => exact ⟨.half ht hk .refl, rfl⟩

namespace Parse

open ParserState (Skips past_tokens kind?_of_tokens here_of_tokens exists_of_kind?)

variable {n : Nat} {s s' : ParserState} {text : String}

theorem closeAngle_eq_ok : closeAngle s = .ok () s' ↔ s.Closes s' := by
  unfold closeAngle
  cases hs : s.tokens with
  | nil =>
    constructor
    · intro h
      obtain ⟨t, ts, ht, -⟩ := (expect_eq_ok (by decide)).1 h
      rw [hs] at ht
      cases ht
    · intro h
      cases h with
      | whole ht | half ht => rw [hs] at ht; cases ht
  | cons t ts =>
    simp only
    by_cases hk : t.kind = .symbol .rightShift
    · rw [if_pos hk]
      constructor
      · intro h
        cases h
        exact .half hs hk
      · intro h
        cases h with
        | whole ht hk' =>
          rw [hs] at ht
          cases ht
          rw [hk] at hk'
          cases hk'
        | half ht _ =>
          rw [hs] at ht
          cases ht
          rfl
    · rw [if_neg hk, expect_eq_ok (by decide)]
      constructor
      · rintro ⟨t, ts, ht, hk, rfl⟩
        exact .whole ht hk
      · intro h
        cases h with
        | whole ht hk' => exact ⟨_, _, ht, hk', rfl⟩
        | half ht hk' =>
          rw [hs] at ht
          cases ht
          exact absurd hk' hk

theorem advanceKind?_bind {β : Type} {f : Option TokenKind → Parse β} {t : Token} {ts : List Token}
    (h : s.tokens = t :: ts) : (advanceKind? >>= f) s = f (some t.kind) (s.past t ts) := by
  unfold advanceKind?
  refine bind_of_ok ?_
  rw [advance?_bind h]
  rfl

/-! ## The relation -/

/-- The readers of ascriptions; the three loops hold the text read so far. -/
inductive TypeReader where
  | qualifiedTail (text : String)
  | arrayTail (text : String)
  | union
  | unionTail (text : String)
  | single
  | arguments

/-- What a reader takes from the front of a queue. -/
inductive ReadsType : TypeReader → ParserState → String → ParserState → Prop
  | qualified_stop {s : ParserState} {text : String} (h : s.kind? ≠ some (.symbol .dot)) :
      ReadsType (.qualifiedTail text) s text s
  | qualified_step {s s' : ParserState} {text name text' : String} {t u : Token} {ts : List Token}
      (ht : s.tokens = t :: u :: ts) (hdot : t.kind = .symbol .dot) (hu : u.kind = .identifier name)
      (h : ReadsType (.qualifiedTail (text ++ "." ++ name)) (s.past u ts) text' s') :
      ReadsType (.qualifiedTail text) s text' s'
  | array_stop {s : ParserState} {text : String} (h : s.kind? ≠ some (.symbol .leftBracket)) :
      ReadsType (.arrayTail text) s text s
  | array_step {s s' : ParserState} {text text' : String} {t u : Token} {ts : List Token}
      (ht : s.tokens = t :: u :: ts) (hopen : t.kind = .symbol .leftBracket)
      (hclose : u.kind = .symbol .rightBracket)
      (h : ReadsType (.arrayTail (text ++ "[]")) (s.past u ts) text' s') :
      ReadsType (.arrayTail text) s text' s'
  | union {s s₁ s' : ParserState} {first text : String} (h : ReadsType .single s first s₁)
      (htail : ReadsType (.unionTail first) s₁ text s') : ReadsType .union s text s'
  | union_stop {s : ParserState} {text : String} (h : s.kind? ≠ some (.symbol .pipe)) :
      ReadsType (.unionTail text) s text s
  | union_step {s s₁ s' : ParserState} {text next text' : String} {t : Token} {ts : List Token}
      (ht : s.tokens = t :: ts) (hpipe : t.kind = .symbol .pipe)
      (h : ReadsType .single (s.past t ts) next s₁)
      (htail : ReadsType (.unionTail (text ++ " | " ++ next)) s₁ text' s') :
      ReadsType (.unionTail text) s text' s'
  | name {s s₁ s' : ParserState} {first name text : String} {t : Token} {ts : List Token}
      (ht : s.tokens = t :: ts) (hk : t.kind = .identifier first)
      (h : ReadsType (.qualifiedTail first) (s.past t ts) name s₁)
      (hless : s₁.kind? ≠ some (.symbol .less)) (htail : ReadsType (.arrayTail name) s₁ text s') :
      ReadsType .single s text s'
  | generic {s s₁ s₂ s₃ s' : ParserState} {first name arguments text : String} {t u : Token}
      {ts us : List Token} (ht : s.tokens = t :: ts) (hk : t.kind = .identifier first)
      (h : ReadsType (.qualifiedTail first) (s.past t ts) name s₁) (hu : s₁.tokens = u :: us)
      (hless : u.kind = .symbol .less)
      (harguments : ReadsType .arguments (s₁.past u us) arguments s₂)
      (hclose : s₂.Closes s₃)
      (htail : ReadsType (.arrayTail (name ++ "<" ++ arguments ++ ">")) s₃ text s') :
      ReadsType .single s text s'
  | null {s s' : ParserState} {text : String} {t : Token} {ts : List Token}
      (ht : s.tokens = t :: ts) (hk : t.kind = .keyword .nullWord)
      (htail : ReadsType (.arrayTail "null") (s.past t ts) text s') : ReadsType .single s text s'
  | string {s s' : ParserState} {value raw text : String} {quote : Quote} {t : Token}
      {ts : List Token} (ht : s.tokens = t :: ts) (hk : t.kind = .string value quote raw)
      (htail : ReadsType (.arrayTail (TokenKind.quoted quote raw)) (s.past t ts) text s') :
      ReadsType .single s text s'
  | number {s s' : ParserState} {raw text : String} {t : Token} {ts : List Token}
      (ht : s.tokens = t :: ts) (hk : t.kind = .number raw)
      (htail : ReadsType (.arrayTail raw) (s.past t ts) text s') : ReadsType .single s text s'
  | group {s s₁ s' : ParserState} {inner text : String} {t u : Token} {ts us : List Token}
      (ht : s.tokens = t :: ts) (hk : t.kind = .symbol .leftParen)
      (h : ReadsType .union (s.past t ts) inner s₁) (hu : s₁.tokens = u :: us)
      (hclose : u.kind = .symbol .rightParen)
      (htail : ReadsType (.arrayTail ("(" ++ inner ++ ")")) (s₁.past u us) text s') :
      ReadsType .single s text s'
  | arguments_last {s s' : ParserState} {text : String} (h : ReadsType .union s text s')
      (hcomma : s'.kind? ≠ some (.symbol .comma)) : ReadsType .arguments s text s'
  | arguments_more {s s₁ s' : ParserState} {first rest : String} {t : Token} {ts : List Token}
      (h : ReadsType .union s first s₁) (ht : s₁.tokens = t :: ts)
      (hcomma : t.kind = .symbol .comma) (hrest : ReadsType .arguments (s₁.past t ts) rest s') :
      ReadsType .arguments s (first ++ ", " ++ rest) s'

/-- An ascription is tokens and no nodes. -/
theorem ReadsType.skips {r : TypeReader} (h : ReadsType r s text s') : s.Skips s' := by
  induction h with
  | qualified_stop | array_stop | union_stop => exact .refl
  | qualified_step ht _ _ _ ih | array_step ht _ _ _ ih =>
    exact (Skips.past ht).trans ((Skips.past (past_tokens _ _ _)).trans ih)
  | union _ _ ih ih' => exact ih.trans ih'
  | union_step ht _ _ _ ih ih' | name ht _ _ _ _ ih ih' =>
    exact (Skips.past ht).trans (ih.trans ih')
  | generic ht _ _ hu _ _ hclose _ ih ih' ih'' =>
    exact (Skips.past ht).trans
      (ih.trans ((Skips.past hu).trans (ih'.trans (hclose.skips.trans ih''))))
  | null ht _ _ ih | string ht _ _ ih | number ht _ _ ih => exact (Skips.past ht).trans ih
  | group ht _ _ hu _ _ ih ih' =>
    exact (Skips.past ht).trans (ih.trans ((Skips.past hu).trans ih'))
  | arguments_last _ _ ih => exact ih
  | arguments_more _ ht _ _ ih ih' => exact ih.trans ((Skips.past ht).trans ih')

/-- The reader itself, with a number of steps. -/
def runType : TypeReader → Nat → Parse String
  | .qualifiedTail text, n => qualifiedTail n text
  | .arrayTail text, n => arrayTail n text
  | .union, n => unionType n
  | .unionTail text, n => unionTail n text
  | .single, n => singleType n
  | .arguments, n => typeArguments n

/-! ## What the readers return is derived -/

/-- What the readers return with `n` steps is derived. -/
def SoundType (n : Nat) : Prop :=
  ∀ (r : TypeReader) {s s' : ParserState} {text : String}, runType r n s = .ok text s' →
    ReadsType r s text s'

theorem qualifiedTail_of_ok {text' : String} (ih : SoundType n)
    (h : qualifiedTail (n + 1) text s = .ok text' s') :
    ReadsType (.qualifiedTail text) s text' s' := by
  unfold qualifiedTail at h
  rcases (accept_bind_eq_ok (by decide)).1 h with ⟨hdot, h⟩ | ⟨t, ts, ht, hdot, h⟩
  · obtain ⟨rfl, rfl⟩ := pure_eq_ok.1 h
    exact .qualified_stop hdot
  · rw [if_pos rfl] at h
    obtain ⟨u, us, name, hu, hname, h⟩ := expectIdentifier_bind_eq_ok.1 h
    exact .qualified_step (ht.trans (congrArg _ hu)) hdot hname (ih (.qualifiedTail _) h)

theorem arrayTail_of_ok {text' : String} (ih : SoundType n)
    (h : arrayTail (n + 1) text s = .ok text' s') : ReadsType (.arrayTail text) s text' s' := by
  unfold arrayTail at h
  rcases (accept_bind_eq_ok (by decide)).1 h with ⟨hopen, h⟩ | ⟨t, ts, ht, hopen, h⟩
  · obtain ⟨rfl, rfl⟩ := pure_eq_ok.1 h
    exact .array_stop hopen
  · rw [if_pos rfl] at h
    obtain ⟨u, us, hu, hclose, h⟩ := (expect_bind_eq_ok (by decide)).1 h
    exact .array_step (ht.trans (congrArg _ hu)) hopen hclose (ih (.arrayTail _) h)

theorem unionTail_of_ok {text' : String} (ih : SoundType n)
    (h : unionTail (n + 1) text s = .ok text' s') : ReadsType (.unionTail text) s text' s' := by
  unfold unionTail at h
  rcases (accept_bind_eq_ok (by decide)).1 h with ⟨hpipe, h⟩ | ⟨t, ts, ht, hpipe, h⟩
  · obtain ⟨rfl, rfl⟩ := pure_eq_ok.1 h
    exact .union_stop hpipe
  · rw [if_pos rfl] at h
    obtain ⟨next, s₁, hnext, h⟩ := bind_eq_ok.1 h
    exact .union_step ht hpipe (ih .single hnext) (ih (.unionTail _) h)

theorem typeArguments_of_ok (ih : SoundType n) (h : typeArguments (n + 1) s = .ok text s') :
    ReadsType .arguments s text s' := by
  unfold typeArguments at h
  obtain ⟨first, s₁, hfirst, h⟩ := bind_eq_ok.1 h
  rcases (accept_bind_eq_ok (by decide)).1 h with ⟨hcomma, h⟩ | ⟨t, ts, ht, hcomma, h⟩
  · obtain ⟨rfl, rfl⟩ := pure_eq_ok.1 h
    exact .arguments_last (ih .union hfirst) hcomma
  · rw [if_pos rfl] at h
    obtain ⟨rest, s₂, hrest, h⟩ := bind_eq_ok.1 h
    obtain ⟨rfl, rfl⟩ := pure_eq_ok.1 h
    exact .arguments_more (ih .union hfirst) ht hcomma (ih .arguments hrest)

theorem singleType_of_ok (ih : SoundType n) (h : singleType (n + 1) s = .ok text s') :
    ReadsType .single s text s' := by
  unfold singleType at h
  rw [here_bind] at h
  cases hs : s.tokens with
  | nil =>
    have hnone : advanceKind? s = .ok none s := by
      unfold advanceKind? advance?
      simp only [bind, EStateM.bind, hs]
      rfl
    rw [bind_of_ok hnone] at h
    exact absurd h throw_ne_ok
  | cons t ts =>
    rw [advanceKind?_bind hs] at h
    cases hk : t.kind with
    | identifier first =>
      rw [hk] at h
      obtain ⟨name, s₁, hname, h⟩ := bind_eq_ok.1 h
      rcases (accept_bind_eq_ok (by decide)).1 h with ⟨hless, h⟩ | ⟨u, us, hu, hless, h⟩
      · exact .name hs hk (ih (.qualifiedTail _) hname) hless (ih (.arrayTail _) h)
      · obtain ⟨arguments, s₂, harguments, h⟩ := bind_eq_ok.1 h
        obtain ⟨_, s₃, hclose, h⟩ := bind_eq_ok.1 h
        exact .generic hs hk (ih (.qualifiedTail _) hname) hu hless (ih .arguments harguments)
          (closeAngle_eq_ok.1 hclose) (ih (.arrayTail _) h)
    | keyword word =>
      rw [hk] at h
      cases word with
      | nullWord => exact .null hs hk (ih (.arrayTail _) h)
      | _ => exact absurd h throw_ne_ok
    | string value quote raw =>
      rw [hk] at h
      exact .string hs hk (ih (.arrayTail _) h)
    | number raw =>
      rw [hk] at h
      exact .number hs hk (ih (.arrayTail _) h)
    | symbol mark =>
      rw [hk] at h
      cases mark with
      | leftParen =>
        obtain ⟨inner, s₁, hinner, h⟩ := bind_eq_ok.1 h
        obtain ⟨u, us, hu, hclose, h⟩ := (expect_bind_eq_ok (by decide)).1 h
        exact .group hs hk (ih .union hinner) hu hclose (ih (.arrayTail _) h)
      | _ => exact absurd h throw_ne_ok
    | _ =>
      rw [hk] at h
      exact absurd h throw_ne_ok

/-- What a reader returns, however many steps it had, is derived. -/
theorem soundType : ∀ n, SoundType n
  | 0 => fun r s s' text h => by
    cases r <;> exact absurd h outOfSteps_ne_ok
  | n + 1 => fun r s s' text h => by
    have ih := soundType n
    cases r with
    | qualifiedTail text => exact qualifiedTail_of_ok ih h
    | arrayTail text => exact arrayTail_of_ok ih h
    | union =>
      obtain ⟨first, s₁, hfirst, h⟩ := bind_eq_ok.1 h
      exact .union (ih .single hfirst) (ih (.unionTail _) h)
    | unionTail text => exact unionTail_of_ok ih h
    | single => exact singleType_of_ok ih h
    | arguments => exact typeArguments_of_ok ih h

/-! ## The relation is followed -/

/-- How many tokens a reader takes at least. -/
def TypeReader.least : TypeReader → Nat
  | .union | .single | .arguments => 1
  | _ => 0

theorem ReadsType.length {r : TypeReader} (h : ReadsType r s text s') :
    s'.tokens.length + r.least ≤ s.tokens.length := by
  induction h with
  | qualified_stop | array_stop | union_stop => exact Nat.le_refl _
  | qualified_step ht _ _ _ ih | array_step ht _ _ _ ih =>
    simp only [ht, List.length_cons, past_tokens, TypeReader.least] at ih ⊢
    omega
  | union _ _ ih ih' =>
    simp only [TypeReader.least] at ih ih' ⊢
    omega
  | union_step ht _ _ _ ih ih' =>
    simp only [ht, List.length_cons, past_tokens, TypeReader.least] at ih ih' ⊢
    omega
  | name ht _ _ _ _ ih ih' =>
    simp only [ht, List.length_cons, past_tokens, TypeReader.least] at ih ih' ⊢
    omega
  | generic ht _ _ hu _ _ hclose _ ih ih' ih'' =>
    have hlength := hclose.skips.leads.length
    simp only [ht, hu, List.length_cons, past_tokens, TypeReader.least] at ih ih' ih'' ⊢
    omega
  | null ht _ _ ih | string ht _ _ ih | number ht _ _ ih =>
    simp only [ht, List.length_cons, past_tokens, TypeReader.least] at ih ⊢
    omega
  | group ht _ _ hu _ _ ih ih' =>
    simp only [ht, hu, List.length_cons, past_tokens, TypeReader.least] at ih ih' ⊢
    omega
  | arguments_last _ _ ih => exact ih
  | arguments_more _ ht _ _ ih ih' =>
    simp only [ht, List.length_cons, past_tokens, TypeReader.least] at ih ih' ⊢
    omega

/-- How many calls can be open between a reader and the token it takes first. -/
def TypeReader.rank : TypeReader → Nat
  | .arguments => 3
  | .union => 2
  | _ => 1

/-- What the relation derives, the readers return with `n` steps, if that is enough. -/
def CompleteType (n : Nat) : Prop :=
  ∀ {r : TypeReader} {s s' : ParserState} {text : String}, ReadsType r s text s' →
    16 * s.tokens.length + r.rank ≤ n + 16 * s'.tokens.length → runType r n s = .ok text s'

theorem run_qualifiedTail {text' : String} (ih : CompleteType n)
    (h : ReadsType (.qualifiedTail text) s text' s')
    (hn : 16 * s.tokens.length + 1 ≤ n + 1 + 16 * s'.tokens.length) :
    qualifiedTail (n + 1) text s = .ok text' s' := by
  unfold qualifiedTail
  cases h with
  | qualified_stop hdot =>
    rw [bind_of_ok (accept_of_ne (by decide) hdot)]
    rfl
  | qualified_step ht hdot hu h =>
    simp only [ht, List.length_cons] at hn
    rw [bind_of_ok (accept_of_eq (by decide) ht hdot), if_pos rfl,
      expectIdentifier_bind (past_tokens _ _ _) hu]
    exact ih h (by simp only [past_tokens, TypeReader.rank]; omega)

theorem run_arrayTail {text' : String} (ih : CompleteType n)
    (h : ReadsType (.arrayTail text) s text' s')
    (hn : 16 * s.tokens.length + 1 ≤ n + 1 + 16 * s'.tokens.length) :
    arrayTail (n + 1) text s = .ok text' s' := by
  unfold arrayTail
  cases h with
  | array_stop hopen =>
    rw [bind_of_ok (accept_of_ne (by decide) hopen)]
    rfl
  | array_step ht hopen hclose h =>
    simp only [ht, List.length_cons] at hn
    rw [bind_of_ok (accept_of_eq (by decide) ht hopen), if_pos rfl,
      expect_bind (past_tokens _ _ _) hclose (by decide)]
    exact ih h (by simp only [past_tokens, TypeReader.rank]; omega)

theorem run_unionTail {text' : String} (ih : CompleteType n)
    (h : ReadsType (.unionTail text) s text' s')
    (hn : 16 * s.tokens.length + 1 ≤ n + 1 + 16 * s'.tokens.length) :
    unionTail (n + 1) text s = .ok text' s' := by
  unfold unionTail
  cases h with
  | union_stop hpipe =>
    rw [bind_of_ok (accept_of_ne (by decide) hpipe)]
    rfl
  | union_step ht hpipe h htail =>
    rename_i s₁ next t ts
    have l₁ := h.length
    have l₂ := htail.length
    simp only [ht, List.length_cons, past_tokens, TypeReader.least] at hn l₁ l₂
    have h₁ : singleType n (s.past t ts) = .ok next s₁ :=
      ih h (by simp only [past_tokens, TypeReader.rank]; omega)
    rw [bind_of_ok (accept_of_eq (by decide) ht hpipe), if_pos rfl, bind_of_ok h₁]
    exact ih htail (by simp only [TypeReader.rank]; omega)

theorem run_unionType (ih : CompleteType n) (h : ReadsType .union s text s')
    (hn : 16 * s.tokens.length + 2 ≤ n + 1 + 16 * s'.tokens.length) :
    unionType (n + 1) s = .ok text s' := by
  unfold unionType
  cases h with
  | union h htail =>
    rename_i s₁ first
    have l₁ := h.length
    have l₂ := htail.length
    simp only [TypeReader.least] at l₁ l₂
    have h₁ : singleType n s = .ok first s₁ := ih h (by simp only [TypeReader.rank]; omega)
    rw [bind_of_ok h₁]
    exact ih htail (by simp only [TypeReader.rank]; omega)

theorem run_singleType (ih : CompleteType n) (h : ReadsType .single s text s')
    (hn : 16 * s.tokens.length + 1 ≤ n + 1 + 16 * s'.tokens.length) :
    singleType (n + 1) s = .ok text s' := by
  unfold singleType
  rw [here_bind]
  cases h with
  | name ht hk h hless htail =>
    rename_i s₁ first name t ts
    have l₁ := h.length
    have l₂ := htail.length
    simp only [ht, List.length_cons, past_tokens, TypeReader.least] at hn l₁ l₂
    have h₁ : qualifiedTail n first (s.past t ts) = .ok name s₁ :=
      ih h (by simp only [past_tokens, TypeReader.rank]; omega)
    rw [advanceKind?_bind ht, hk]
    simp only
    rw [bind_of_ok h₁, bind_of_ok (accept_of_ne (by decide) hless)]
    exact ih htail (by simp only [TypeReader.rank]; omega)
  | generic ht hk h hu hless harguments hclose htail =>
    rename_i s₁ s₂ s₃ first name arguments t u ts us
    have l₁ := h.length
    have l₂ := harguments.length
    have l₃ := hclose.skips.leads.length
    have l₄ := htail.length
    simp only [ht, hu, List.length_cons, past_tokens, TypeReader.least] at hn l₁ l₂ l₄
    have h₁ : qualifiedTail n first (s.past t ts) = .ok name s₁ :=
      ih h (by simp only [hu, List.length_cons, past_tokens, TypeReader.rank]; omega)
    have h₂ : typeArguments n (s₁.past u us) = .ok arguments s₂ :=
      ih harguments (by simp only [past_tokens, TypeReader.rank]; omega)
    rw [advanceKind?_bind ht, hk]
    simp only
    rw [bind_of_ok h₁, bind_of_ok (accept_of_eq (by decide) hu hless), if_pos rfl, bind_of_ok h₂,
      bind_of_ok (closeAngle_eq_ok.2 hclose)]
    exact ih htail (by simp only [TypeReader.rank]; omega)
  | null ht hk htail | string ht hk htail | number ht hk htail =>
    simp only [ht, List.length_cons] at hn
    rw [advanceKind?_bind ht, hk]
    exact ih htail (by simp only [past_tokens, TypeReader.rank]; omega)
  | group ht hk h hu hclose htail =>
    rename_i s₁ inner t u ts us
    have l₁ := h.length
    have l₂ := htail.length
    simp only [ht, hu, List.length_cons, past_tokens, TypeReader.least] at hn l₁ l₂
    have h₁ : unionType n (s.past t ts) = .ok inner s₁ :=
      ih h (by simp only [hu, List.length_cons, past_tokens, TypeReader.rank]; omega)
    rw [advanceKind?_bind ht, hk]
    simp only
    rw [bind_of_ok h₁, expect_bind hu hclose (by decide)]
    exact ih htail (by simp only [past_tokens, TypeReader.rank]; omega)

theorem run_typeArguments (ih : CompleteType n) (h : ReadsType .arguments s text s')
    (hn : 16 * s.tokens.length + 3 ≤ n + 1 + 16 * s'.tokens.length) :
    typeArguments (n + 1) s = .ok text s' := by
  unfold typeArguments
  cases h with
  | arguments_last h hcomma =>
    have h₁ : unionType n s = .ok text s' := ih h (by simp only [TypeReader.rank]; omega)
    rw [bind_of_ok h₁, bind_of_ok (accept_of_ne (by decide) hcomma)]
    rfl
  | arguments_more h ht hcomma hrest =>
    rename_i s₁ first rest t ts
    have l₁ := h.length
    have l₂ := hrest.length
    simp only [ht, List.length_cons, past_tokens, TypeReader.least] at l₁ l₂
    have h₁ : unionType n s = .ok first s₁ :=
      ih h (by simp only [ht, List.length_cons, TypeReader.rank]; omega)
    have h₂ : typeArguments n (s₁.past t ts) = .ok rest s' :=
      ih hrest (by simp only [past_tokens, TypeReader.rank]; omega)
    rw [bind_of_ok h₁, bind_of_ok (accept_of_eq (by decide) ht hcomma), if_pos rfl, bind_of_ok h₂]
    rfl

/-- A reader that has sixteen steps for each token it takes, and its rank, does not run out. -/
theorem completeType : ∀ n, CompleteType n
  | 0, r, _, _, _, h, hn => by
    have l := h.length
    -- a reader that takes no token still needs a step
    have hrank : 0 < r.rank := by cases r <;> exact Nat.succ_pos _
    omega
  | n + 1, r, _, _, _, h, hn => by
    have ih : CompleteType n := completeType n
    cases r with
    | qualifiedTail text => exact run_qualifiedTail ih h hn
    | arrayTail text => exact run_arrayTail ih h hn
    | union => exact run_unionType ih h hn
    | unionTail text => exact run_unionTail ih h hn
    | single => exact run_singleType ih h hn
    | arguments => exact run_typeArguments ih h hn

/-- **`Parse.ascription` is the relation.** The steps it allows are always enough. -/
theorem ascription_eq_ok : ascription s = .ok text s' ↔ ReadsType .union s text s' := by
  constructor
  · intro h
    exact soundType _ .union h
  · intro h
    exact completeType _ h (by unfold steps; simp only [TypeReader.rank]; omega)

end Parse

end DecimalLift
