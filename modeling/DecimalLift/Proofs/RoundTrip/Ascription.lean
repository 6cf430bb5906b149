import DecimalLift.Proofs.Layout.Ascription
import DecimalLift.Proofs.Parse.Ascription
import DecimalLift.Proofs.RoundTrip.Basic

/-!
# Ascriptions are read back

* `ReadsBack` — what the layouts of each level do to the readers of ascriptions: the names, brackets
  and unions of a layout are taken one by one by the loops of the readers.
* `TypePieces.readsBack` — every layout is read back.
* `readsType_of_marks` — the text of an ascription is the text that is read from its tokens.
-/

set_option autoImplicit false

namespace DecimalLift

open Piece (symbol keyword)

/-! ## Steps along the kinds that a queue shows -/

section

variable {s : ParserState} {k : TokenKind} {ks : List TokenKind} {rest : List Mark}

theorem takes_of_marks {b : Bool} {ms : List Mark} (h : s.marks = (k, b) :: ms) :
    ∃ s', s.Takes k s' ∧ s'.marks = ms := by
  obtain ⟨t, ts, ht, hk, -, hms⟩ := ParserState.exists_of_marks h
  exact ⟨_, ⟨t, ts, ht, hk, rfl⟩, hms⟩

theorem takes_of_shows (h : Shows s.marks (k :: ks) rest) (hk : k ≠ .symbol .greater) :
    ∃ s', s.Takes k s' ∧ Shows s'.marks ks rest := by
  generalize hms : s.marks = ms at h
  cases h with
  | cons h =>
    obtain ⟨s', htakes, rfl⟩ := takes_of_marks hms
    exact ⟨s', htakes, h⟩
  | half => exact absurd rfl hk

/-- A closing angle is a token of its own, or the first half of a token `>>`. -/
theorem closes_of_shows (h : Shows s.marks (.symbol .greater :: ks) rest) :
    ∃ s', s.Closes s' ∧ Shows s'.marks ks rest := by
  generalize hms : s.marks = ms at h
  cases h with
  | cons h =>
    obtain ⟨t, ts, ht, hk, -, rfl⟩ := ParserState.exists_of_marks hms
    exact ⟨_, .whole ht hk, h⟩
  | half h =>
    obtain ⟨t, ts, ht, hk, hb, rfl⟩ := ParserState.exists_of_marks hms
    refine ⟨_, .half ht hk, ?_⟩
    have hmark : t.secondHalf.mark = (.symbol .greater, _) := congrArg (Prod.mk _) hb
    rw [ParserState.marks, List.map_cons, hmark]
    exact h

/-- No token that `p` holds of stands in front of a queue that shows the kinds `ks`. -/
def Behind (p : TokenKind → Bool) (ks : List TokenKind) (rest : List Mark) : Prop :=
  ∀ ms, Shows ms ks rest → NotAt p ms

theorem behind_cons {p : TokenKind → Bool} (hk : p k = false)
    (hshift : p (.symbol .rightShift) = false) : Behind p (k :: ks) rest := by
  intro ms h
  cases h with
  | cons => exact notAt_cons.2 hk
  | half => exact notAt_cons.2 hshift

theorem behind_nil {p : TokenKind → Bool} (h : NotAt p rest) : Behind p [] rest := by
  intro ms hms
  cases hms
  exact h

theorem Behind.mono {p q : TokenKind → Bool} (h : Behind p ks rest)
    (hpq : ∀ k, p k = false → q k = false) : Behind q ks rest :=
  fun ms hms => (h ms hms).mono hpq

end

/-! ## Reading back -/

/-- Whether a token is one of some symbols. -/
def TokenKind.isOneOf (ys : List Symbol) : TokenKind → Bool
  | .symbol y => ys.contains y
  | _ => false

theorem TokenKind.isOneOf_mono {xs ys : List Symbol} (h : ∀ y, y ∈ xs → y ∈ ys) (k : TokenKind)
    (hk : k.isOneOf ys = false) : k.isOneOf xs = false := by
  cases k with
  | symbol y =>
    simp only [isOneOf, List.contains_eq_mem, decide_eq_false_iff_not] at hk ⊢
    exact fun hy => hk (h y hy)
  | _ => rfl

namespace Parse

/-- The queue of `s` starts with a layout, behind which it shows `more` and has `rest`. -/
def ShowsPieces (ps : List Piece) (s : ParserState) (more : List TokenKind) (rest : List Mark) :
    Prop :=
  Shows s.marks (ps.flatMap Piece.kinds ++ more) rest

/-- The readers of ascriptions go along a layout. The loops are given what is behind the layout. -/
def ReadsBack (level : TypeLevel) (ps : List Piece) : Prop :=
  ∀ ⦃s : ParserState⦄ ⦃more : List TokenKind⦄ ⦃rest : List Mark⦄, ShowsPieces ps s more rest →
    match level with
    | .qualified => ∃ first s₀ s₁, s.Takes (.identifier first) s₀ ∧ Shows s₁.marks more rest ∧
        ∀ text s', ReadsType (.qualifiedTail (Piece.render ps)) s₁ text s' →
          ReadsType (.qualifiedTail first) s₀ text s'
    | .single => Behind (·.isOneOf [.dot, .less]) more rest → ∃ s₁, Shows s₁.marks more rest ∧
        ∀ text s', ReadsType (.arrayTail (Piece.render ps)) s₁ text s' →
          ReadsType .single s text s'
    | .union => Behind (·.isOneOf [.dot, .less, .leftBracket]) more rest →
        ∃ s₁, Shows s₁.marks more rest ∧
          ∀ text s', ReadsType (.unionTail (Piece.render ps)) s₁ text s' →
            ReadsType .union s text s'
    | .arguments => Behind (·.isOneOf [.dot, .less, .leftBracket, .pipe, .comma]) more rest →
        ∃ s₁, Shows s₁.marks more rest ∧ ReadsType .arguments s (Piece.render ps) s₁

variable {ps qs : List Piece} {s : ParserState} {more : List TokenKind} {rest : List Mark}

/-- A single type that no bracket follows. -/
theorem ReadsBack.whole_single (h : ReadsBack .single ps) (hs : ShowsPieces ps s more rest)
    (hmore : Behind (·.isOneOf [.dot, .less, .leftBracket]) more rest) :
    ∃ s₁, Shows s₁.marks more rest ∧ ReadsType .single s (Piece.render ps) s₁ := by
  obtain ⟨s₁, hs₁, hread⟩ := h hs (hmore.mono (TokenKind.isOneOf_mono (by simp)))
  refine ⟨s₁, hs₁, hread _ _ (.array_stop ?_)⟩
  exact kind?_ne_of_notAt (hmore _ hs₁) rfl

/-- A union that no bar follows. -/
theorem ReadsBack.whole_union (h : ReadsBack .union ps) (hs : ShowsPieces ps s more rest)
    (hmore : Behind (·.isOneOf [.dot, .less, .leftBracket, .pipe]) more rest) :
    ∃ s₁, Shows s₁.marks more rest ∧ ReadsType .union s (Piece.render ps) s₁ := by
  obtain ⟨s₁, hs₁, hread⟩ := h hs (hmore.mono (TokenKind.isOneOf_mono (by simp)))
  refine ⟨s₁, hs₁, hread _ _ (.union_stop ?_)⟩
  exact kind?_ne_of_notAt (hmore _ hs₁) rfl

theorem showsPieces_append (h : ShowsPieces (ps ++ qs) s more rest) :
    ShowsPieces ps s (qs.flatMap Piece.kinds ++ more) rest := by
  unfold ShowsPieces at h ⊢
  rwa [List.flatMap_append, List.append_assoc] at h

theorem readsBack_member {name : String} (h : ReadsBack .qualified ps) :
    ReadsBack .qualified (ps ++ [symbol .dot, .name name]) := by
  intro s more rest hs
  obtain ⟨first, s₀, s₁, hfirst, hs₁, hread⟩ := h (showsPieces_append hs)
  obtain ⟨s₂, ⟨t, ts, ht, hdot, rfl⟩, hs₂⟩ := takes_of_shows hs₁ (by decide)
  obtain ⟨s₃, ⟨u, us, hu, hname, rfl⟩, hs₃⟩ := takes_of_shows hs₂ (by simp)
  refine ⟨first, s₀, _, hfirst, hs₃, fun text s' htail => hread text s' ?_⟩
  rw [Piece.render_member] at htail
  exact .qualified_step (ht.trans (congrArg _ hu)) hdot hname htail

theorem readsBack_plain (h : ReadsBack .qualified ps) : ReadsBack .single ps := by
  intro s more rest hs hmore
  obtain ⟨first, s₀, s₁, ⟨t, ts, ht, hk, rfl⟩, hs₁, hread⟩ := h hs
  have hnot := hmore _ hs₁
  refine ⟨s₁, hs₁, fun text s' htail => ?_⟩
  refine .name ht hk (hread _ _ (.qualified_stop ?_)) ?_ htail
  · exact kind?_ne_of_notAt hnot rfl
  · exact kind?_ne_of_notAt hnot rfl

theorem readsBack_generic (h : ReadsBack .qualified ps) (h' : ReadsBack .arguments qs) :
    ReadsBack .single (ps ++ symbol .less :: qs ++ [symbol .greater]) := by
  intro s more rest hs _
  obtain ⟨first, s₀, s₁, ⟨t, ts, ht, hk, rfl⟩, hs₁, hread⟩ :=
    h (showsPieces_append (showsPieces_append hs))
  obtain ⟨s₂, hless, hs₂⟩ := takes_of_shows hs₁ (by decide)
  have hdot : s₁.kind? ≠ some (.symbol .dot) := by
    rw [hless.kind?]
    decide
  obtain ⟨u, us, hu, hless, rfl⟩ := hless
  obtain ⟨s₃, hs₃, harguments⟩ := h' hs₂ (behind_cons rfl rfl)
  obtain ⟨s₄, hclose, hs₄⟩ := closes_of_shows hs₃
  refine ⟨s₄, hs₄, fun text s' htail => ?_⟩
  rw [Piece.render_generic] at htail
  exact .generic ht hk (hread _ _ (.qualified_stop hdot)) hu hless harguments hclose htail

theorem readsBack_group (h : ReadsBack .union ps) :
    ReadsBack .single (symbol .leftParen :: ps ++ [symbol .rightParen]) := by
  intro s more rest hs _
  obtain ⟨s₁, ⟨t, ts, ht, hopen, rfl⟩, hs₁⟩ :=
    takes_of_shows (showsPieces_append hs) (by decide)
  obtain ⟨s₂, hs₂, hinner⟩ := h.whole_union hs₁ (behind_cons rfl rfl)
  obtain ⟨s₃, ⟨u, us, hu, hclose, rfl⟩, hs₃⟩ := takes_of_shows hs₂ (by decide)
  refine ⟨_, hs₃, fun text s' htail => ?_⟩
  rw [Piece.render_group] at htail
  exact .group ht hopen hinner hu hclose htail

theorem readsBack_array (h : ReadsBack .single ps) :
    ReadsBack .single (ps ++ [symbol .leftBracket, symbol .rightBracket]) := by
  intro s more rest hs _
  obtain ⟨s₁, hs₁, hread⟩ := h (showsPieces_append hs) (behind_cons rfl rfl)
  obtain ⟨s₂, ⟨t, ts, ht, hopen, rfl⟩, hs₂⟩ := takes_of_shows hs₁ (by decide)
  obtain ⟨s₃, ⟨u, us, hu, hclose, rfl⟩, hs₃⟩ := takes_of_shows hs₂ (by decide)
  refine ⟨_, hs₃, fun text s' htail => hread text s' ?_⟩
  rw [Piece.render_array] at htail
  exact .array_step (ht.trans (congrArg _ hu)) hopen hclose htail

theorem readsBack_union (h : ReadsBack .union ps) (h' : ReadsBack .single qs) :
    ReadsBack .union (ps ++ [.space, symbol .pipe, .space] ++ qs) := by
  intro s more rest hs hmore
  obtain ⟨s₁, hs₁, hread⟩ := h (showsPieces_append (showsPieces_append hs)) (behind_cons rfl rfl)
  obtain ⟨s₂, ⟨t, ts, ht, hpipe, rfl⟩, hs₂⟩ := takes_of_shows hs₁ (by decide)
  obtain ⟨s₃, hs₃, hnext⟩ := h'.whole_single hs₂ hmore
  refine ⟨s₃, hs₃, fun text s' htail => hread text s' ?_⟩
  rw [Piece.render_union] at htail
  exact .union_step ht hpipe hnext htail

theorem readsBack_more (h : ReadsBack .union ps) (h' : ReadsBack .arguments qs) :
    ReadsBack .arguments (ps ++ [symbol .comma, .space] ++ qs) := by
  intro s more rest hs hmore
  obtain ⟨s₁, hs₁, hfirst⟩ :=
    h.whole_union (showsPieces_append (showsPieces_append hs)) (behind_cons rfl rfl)
  obtain ⟨s₂, ⟨t, ts, ht, hcomma, rfl⟩, hs₂⟩ := takes_of_shows hs₁ (by decide)
  obtain ⟨s₃, hs₃, hrest⟩ := h' hs₂ hmore
  refine ⟨s₃, hs₃, ?_⟩
  rw [Piece.render_more]
  exact .arguments_more hfirst ht hcomma hrest

/-- **Every layout of an ascription is read back.** -/
theorem TypePieces.readsBack {level : TypeLevel} (h : TypePieces level ps) :
    ReadsBack level ps := by
  induction h with
  | name h =>
    intro s more rest hs
    obtain ⟨s₁, hname, hs₁⟩ := takes_of_shows hs (by simp)
    refine ⟨_, s₁, s₁, hname, hs₁, fun text s' htail => ?_⟩
    rwa [Piece.render_name] at htail
  | member _ _ ih => exact readsBack_member ih
  | plain _ ih => exact readsBack_plain ih
  | generic _ _ ih ih' => exact readsBack_generic ih ih'
  | null =>
    intro s more rest hs _
    obtain ⟨s₁, ⟨t, ts, ht, hk, rfl⟩, hs₁⟩ := takes_of_shows hs (by decide)
    exact ⟨_, hs₁, fun text s' htail => .null ht hk htail⟩
  | string h =>
    intro s more rest hs _
    obtain ⟨s₁, ⟨t, ts, ht, hk, rfl⟩, hs₁⟩ := takes_of_shows hs (by simp)
    refine ⟨_, hs₁, fun text s' htail => ?_⟩
    rw [Piece.render_token] at htail
    exact .string ht hk htail
  | number h =>
    intro s more rest hs _
    obtain ⟨s₁, ⟨t, ts, ht, hk, rfl⟩, hs₁⟩ := takes_of_shows hs (by simp)
    refine ⟨_, hs₁, fun text s' htail => ?_⟩
    rw [Piece.render_token] at htail
    exact .number ht hk htail
  | group _ ih => exact readsBack_group ih
  | array _ ih => exact readsBack_array ih
  | first _ ih =>
    intro s more rest hs hmore
    obtain ⟨s₁, hs₁, hread⟩ := ih.whole_single hs hmore
    exact ⟨s₁, hs₁, fun text s' htail => .union hread htail⟩
  | union _ _ ih ih' => exact readsBack_union ih ih'
  | last _ ih =>
    intro s more rest hs hmore
    obtain ⟨s₁, hs₁, hread⟩ := ih.whole_union hs (hmore.mono (TokenKind.isOneOf_mono (by simp)))
    exact ⟨s₁, hs₁, .arguments_last hread (kind?_ne_of_notAt (hmore _ hs₁) rfl)⟩
  | more _ _ ih ih' => exact readsBack_more ih ih'

/-- **The text of an ascription is read from its tokens**, unless more of a type follows. -/
theorem readsType_of_marks {text : String} (h : IsAscription text) {b : Bool}
    (hs : s.marks = Piece.marks b [.ascription text] ++ rest)
    (hrest : NotAt (·.isOneOf [.dot, .less, .leftBracket, .pipe]) rest) :
    ∃ s', ReadsType .union s text s' ∧ s'.marks = rest := by
  obtain ⟨ps, hps, rfl⟩ := h
  have hshows : ShowsPieces ps s [] rest := by
    unfold ShowsPieces
    rw [hs, List.append_nil]
    exact shows_ascription hps b rest
  obtain ⟨s', hs', hread⟩ := (TypePieces.readsBack hps).whole_union hshows (behind_nil hrest)
  refine ⟨s', hread, ?_⟩
  generalize hms : s'.marks = ms at hs'
  cases hs'
  exact rfl

end Parse

end DecimalLift
