import DecimalLift.Proofs.Layout.Expression

/-!
# Ascriptions as layouts

An ascription is kept as text. The texts that a reader of ascriptions returns are the layouts of
`TypePieces`; this file says what tokens such a text has.

* `TypePieces` — the layouts of ascriptions, by the reader that returns them.
* `Piece.joinAngles` — closing angles that touch are one token `>>` of the text, two by two.
* `Shows` — the marks of a queue show certain kinds of token, when tokens `>>` may be cut.
* `stands_ascription`, `shows_ascription` — the tokens of an ascription inside a layout.
-/

set_option autoImplicit false

namespace DecimalLift

open DecimalLift.Text
open Piece (Spaced Settled spaced_append symbol keyword)

/-! ## Layouts of ascriptions -/

/-- What a layout of an ascription is made of. -/
inductive TypeLevel where
  /-- A name with the names of what it is a part of. -/
  | qualified
  | single
  | union
  /-- Types between commas. -/
  | arguments

/-- The layouts of ascriptions. -/
inductive TypePieces : TypeLevel → List Piece → Prop
  | name {name : String} (h : (TokenKind.identifier name).Spelt) :
      TypePieces .qualified [.name name]
  | member {ps : List Piece} {name : String} (hps : TypePieces .qualified ps)
      (h : (TokenKind.identifier name).Spelt) :
      TypePieces .qualified (ps ++ [symbol .dot, .name name])
  | plain {ps : List Piece} (hps : TypePieces .qualified ps) : TypePieces .single ps
  | generic {ps qs : List Piece} (hps : TypePieces .qualified ps) (hqs : TypePieces .arguments qs) :
      TypePieces .single (ps ++ symbol .less :: qs ++ [symbol .greater])
  | null : TypePieces .single [keyword .nullWord]
  | string {value raw : String} {quote : Quote} (h : (TokenKind.string value quote raw).Spelt) :
      TypePieces .single [.token (.string value quote raw)]
  | number {raw : String} (h : (TokenKind.number raw).Spelt) :
      TypePieces .single [.token (.number raw)]
  | group {ps : List Piece} (hps : TypePieces .union ps) :
      TypePieces .single (symbol .leftParen :: ps ++ [symbol .rightParen])
  | array {ps : List Piece} (hps : TypePieces .single ps) :
      TypePieces .single (ps ++ [symbol .leftBracket, symbol .rightBracket])
  | first {ps : List Piece} (hps : TypePieces .single ps) : TypePieces .union ps
  | union {ps qs : List Piece} (hps : TypePieces .union ps) (hqs : TypePieces .single qs) :
      TypePieces .union (ps ++ [.space, symbol .pipe, .space] ++ qs)
  | last {ps : List Piece} (hps : TypePieces .union ps) : TypePieces .arguments ps
  | more {ps qs : List Piece} (hps : TypePieces .union ps) (hqs : TypePieces .arguments qs) :
      TypePieces .arguments (ps ++ [symbol .comma, .space] ++ qs)

/-- The texts of ascriptions. -/
def IsAscription (text : String) : Prop := ∃ ps, TypePieces .union ps ∧ text = Piece.render ps

/-! The texts of the layouts. -/

namespace Piece

theorem render_append (ps qs : List Piece) : render (ps ++ qs) = render ps ++ render qs := by
  simp only [render, List.flatMap_append, String.ofList_append]

theorem render_cons (p : Piece) (ps : List Piece) : render (p :: ps) = render [p] ++ render ps :=
  render_append [p] ps

theorem render_token (k : TokenKind) : render [.token k] = k.text := by
  simp only [render, List.flatMap_cons, List.flatMap_nil, List.append_nil, chars,
    String.ofList_toList]

theorem render_symbol (y : Symbol) : render [symbol y] = y.text := render_token _

theorem render_name (name : String) : render [.name name] = name := render_token _

theorem render_member (ps : List Piece) (name : String) :
    render (ps ++ [symbol .dot, .name name]) = render ps ++ "." ++ name := by
  rw [render_append, render_cons, render_symbol, render_name, String.append_assoc]
  rfl

theorem render_generic (ps qs : List Piece) :
    render (ps ++ symbol .less :: qs ++ [symbol .greater]) =
      render ps ++ "<" ++ render qs ++ ">" := by
  rw [render_append, render_append, render_cons, render_symbol, render_symbol,
    ← String.append_assoc]
  rfl

theorem render_group (ps : List Piece) :
    render (symbol .leftParen :: ps ++ [symbol .rightParen]) = "(" ++ render ps ++ ")" := by
  rw [render_append, render_cons, render_symbol, render_symbol]
  rfl

theorem render_array (ps : List Piece) :
    render (ps ++ [symbol .leftBracket, symbol .rightBracket]) = render ps ++ "[]" := by
  rw [render_append]
  rfl

theorem render_union (ps qs : List Piece) :
    render (ps ++ [.space, symbol .pipe, .space] ++ qs) = render ps ++ " | " ++ render qs := by
  rw [render_append, render_append]
  rfl

theorem render_more (ps qs : List Piece) :
    render (ps ++ [symbol .comma, .space] ++ qs) = render ps ++ ", " ++ render qs := by
  rw [render_append, render_append]
  rfl

end Piece

/-- An ascription starts with a token that could start an operand. -/
theorem TypePieces.exists_first {level : TypeLevel} {ps : List Piece} (h : TypePieces level ps) :
    ∃ k qs, ps = .token k :: qs ∧ k.Spelt ∧ k.startsOperand = true := by
  induction h with
  | name h => exact ⟨_, _, rfl, h, rfl⟩
  | string h => exact ⟨_, _, rfl, h, rfl⟩
  | number h => exact ⟨_, _, rfl, h, rfl⟩
  | null | group => exact ⟨_, _, rfl, trivial, rfl⟩
  | plain _ ih | first _ ih | last _ ih => exact ih
  | member _ _ ih | generic _ _ ih | array _ ih | union _ _ ih | more _ _ ih =>
    obtain ⟨k, qs, rfl, hk, hs⟩ := ih
    exact ⟨k, _, rfl, hk, hs⟩

/-- Pieces without line ends. -/
def Piece.Plain (p : Piece) : Prop := p = .space ∨ ∃ k, p = .token k ∧ k.trivia? = none

theorem TypePieces.plain_pieces {level : TypeLevel} {ps : List Piece} (h : TypePieces level ps) :
    ∀ p ∈ ps, p.Plain := by
  have symbol : ∀ y, (symbol y).Plain := fun y => Or.inr ⟨_, rfl, rfl⟩
  have space : Piece.Plain .space := Or.inl rfl
  induction h with
  | name | null | string | number =>
    intro p hp
    obtain rfl := List.mem_singleton.1 hp
    exact Or.inr ⟨_, rfl, rfl⟩
  | plain _ ih | first _ ih | last _ ih => exact ih
  | member _ _ ih =>
    simp only [List.forall_mem_append, List.forall_mem_cons]
    exact ⟨ih, symbol _, Or.inr ⟨_, rfl, rfl⟩, List.forall_mem_nil _⟩
  | generic _ _ ih ih' =>
    simp only [List.forall_mem_append, List.forall_mem_cons]
    exact ⟨⟨ih, symbol _, ih'⟩, symbol _, List.forall_mem_nil _⟩
  | group _ ih =>
    simp only [List.forall_mem_append, List.forall_mem_cons, List.cons_append]
    exact ⟨symbol _, ih, symbol _, List.forall_mem_nil _⟩
  | array _ ih =>
    simp only [List.forall_mem_append, List.forall_mem_cons]
    exact ⟨ih, symbol _, symbol _, List.forall_mem_nil _⟩
  | union _ _ ih ih' =>
    simp only [List.forall_mem_append, List.forall_mem_cons]
    exact ⟨⟨ih, space, symbol _, space, List.forall_mem_nil _⟩, ih'⟩
  | more _ _ ih ih' =>
    simp only [List.forall_mem_append, List.forall_mem_cons]
    exact ⟨⟨ih, symbol _, space, List.forall_mem_nil _⟩, ih'⟩

/-! ## Closing angles -/

namespace Piece

/-- Spaced, except that closing angles may touch. -/
def SpacedAngles : List Piece → List Char → Prop
  | [], _ => True
  | p :: ps, tail =>
    (p.Stands (ps.flatMap chars ++ tail) ∨
      p = symbol .greater ∧ ps.head? = some (symbol .greater)) ∧ SpacedAngles ps tail

/-- Closing angles that touch, joined from the left as a scanner joins them. -/
def joinAngles : List Piece → List Piece
  | [] => []
  | [p] => [p]
  | p :: q :: ps =>
    if p = symbol .greater ∧ q = symbol .greater then symbol .rightShift :: joinAngles ps
    else p :: joinAngles (q :: ps)

theorem flatMap_chars_joinAngles (ps : List Piece) :
    (joinAngles ps).flatMap chars = ps.flatMap chars := by
  fun_induction joinAngles ps with
  | case1 => rfl
  | case2 => rfl
  | case3 p q ps h ih =>
    obtain ⟨rfl, rfl⟩ := h
    rw [List.flatMap_cons, ih]
    rfl
  | case4 p q ps h ih =>
    rw [List.flatMap_cons, ih]
    rfl

/-- No character makes a longer symbol of `>>`. -/
theorem stands_rightShift (rest : List Char) : (symbol .rightShift).Stands rest := by
  refine ⟨trivial, fun c _ => ?_⟩
  have hj : Symbol.joins .rightShift c = false := by
    cases hj : Symbol.joins .rightShift c with
    | false => rfl
    | true => cases (Symbol.mem_followers_of_joins hj : c ∈ [])
  simp [TokenKind.runsInto, hj]

theorem spaced_joinAngles {ps : List Piece} {tail : List Char} (h : SpacedAngles ps tail) :
    Spaced (joinAngles ps) tail := by
  fun_induction joinAngles ps with
  | case1 => trivial
  | case2 p =>
    refine ⟨?_, trivial⟩
    rcases h.1 with h | ⟨-, h⟩
    · exact h
    · cases h
  | case3 p q ps hpq ih => exact ⟨stands_rightShift _, ih h.2.2⟩
  | case4 p q ps hpq ih =>
    refine ⟨?_, ih h.2⟩
    rw [flatMap_chars_joinAngles]
    rcases h.1 with h | ⟨hp, hq⟩
    · exact h
    · exact absurd ⟨hp, Option.some.inj hq⟩ hpq

end Piece

/-! ## Characters behind an ascription -/

/-- Behind the layout of an ascription stands a closing angle, or a character that may stand behind
every expression. -/
def EndsType (after : List Piece) (tail : List Char) : Prop :=
  after.head? = some (symbol .greater) ∨
    Expression.MayFollow (after.flatMap Piece.chars ++ tail)

/-- What a layout asks of what stands behind it: nothing may run into a name, and more may not
stand behind a type. -/
def TypeLevel.Ends : TypeLevel → List Piece → List Char → Prop
  | .qualified, after, tail => Stops isNamePart (after.flatMap Piece.chars ++ tail)
  | _, after, tail => EndsType after tail

section

variable {after : List Piece} {tail : List Char}

theorem endsType_cons {p : Piece} {c : Char} {cs : List Char} (hp : p.chars = c :: cs)
    (hc : c ∈ Expression.stops) : EndsType (p :: after) tail := by
  refine Or.inr ?_
  rw [List.flatMap_cons, hp]
  exact mayFollow_cons hc _

/-- The tokens at the end of an ascription stand before what may follow it. -/
theorem stops_of_endsType {k : TokenKind} (hend : k.endsOperand = true)
    (hangle : k.runsInto '>' = false) (h : EndsType after tail) :
    Stops k.runsInto (after.flatMap Piece.chars ++ tail) := by
  rcases h with h | h
  · obtain ⟨ps, rfl⟩ : ∃ ps, after = symbol .greater :: ps := by
      cases after with
      | nil => cases h
      | cons p ps => exact ⟨ps, congrArg (· :: ps) (Option.some.inj h)⟩
    exact stops_cons.2 hangle
  · exact fun c hc => not_runsInto_of_mem_stops hend c (mem_stops_of_mayFollow h c hc)

/-- What may stand behind every expression may stand behind a layout of every level. -/
theorem TypeLevel.ends_of_mayFollow (level : TypeLevel) (h : Expression.MayFollow tail) :
    level.Ends [] tail := by
  cases level with
  | qualified => exact stops_of_endsType (k := .identifier "") rfl (by decide) (Or.inr h)
  | single | union | arguments => exact Or.inr h

theorem spacedAngles_token {k : TokenKind} (hk : k.Spelt)
    (h : Stops k.runsInto (after.flatMap Piece.chars ++ tail))
    (hafter : Piece.SpacedAngles after tail) : Piece.SpacedAngles (.token k :: after) tail :=
  ⟨Or.inl ⟨hk, h⟩, hafter⟩

theorem spacedAngles_greater (h : EndsType after tail) (hafter : Piece.SpacedAngles after tail) :
    Piece.SpacedAngles (symbol .greater :: after) tail := by
  refine ⟨?_, hafter⟩
  rcases h with h | h
  · exact Or.inr ⟨rfl, h⟩
  · refine Or.inl ⟨trivial, fun c hc => ?_⟩
    exact eq_false_of_mem_stops (by decide) c (mem_stops_of_mayFollow h c hc)

/-- **Ascriptions are spaced up to closing angles**, in front of whatever may follow them. -/
theorem TypePieces.spacedAngles {level : TypeLevel} {ps : List Piece} (h : TypePieces level ps) :
    ∀ {after : List Piece}, level.Ends after tail → Piece.SpacedAngles after tail →
      Piece.SpacedAngles (ps ++ after) tail := by
  induction h with
  | name h =>
    intro after hend hafter
    exact spacedAngles_token h hend hafter
  | member _ h ih =>
    intro after hend hafter
    rw [List.append_assoc]
    refine ih (stops_cons.2 (by decide)) ?_
    have hname : Spaced [.name _] (after.flatMap Piece.chars ++ tail) := spaced_token h hend
    refine ⟨Or.inl ?_, spacedAngles_token h hend hafter⟩
    have hdot := (spaced_property hname).1
    simpa using hdot
  | plain _ ih =>
    intro after hend hafter
    exact ih (stops_of_endsType (k := .identifier "") rfl (by decide) hend) hafter
  | generic _ hqs ih ih' =>
    intro after hend hafter
    rw [List.append_assoc, List.append_assoc]
    refine ih (stops_cons.2 (by decide)) ?_
    have hqs' := ih' (Or.inl rfl) (spacedAngles_greater hend hafter)
    -- no type starts with a character that would join the angle in front of it
    obtain ⟨k, rest, rfl, hk, hstart⟩ := hqs.exists_first
    refine spacedAngles_token trivial ?_ hqs'
    refine stops_first hk fun c cs hc => ?_
    have hj := @not_joins .less (by decide) c (not_mem_operatorChars hk hstart hc)
    simp [TokenKind.runsInto, hj]
  | null =>
    intro after hend hafter
    exact spacedAngles_token trivial (stops_of_endsType rfl (by decide) hend) hafter
  | string h =>
    intro after hend hafter
    exact spacedAngles_token h (stops_of_endsType rfl rfl hend) hafter
  | number h =>
    intro after hend hafter
    have hangle : Number.runsOn '>' = false := by decide
    exact spacedAngles_token h (stops_of_endsType rfl hangle hend) hafter
  | group _ ih =>
    intro after hend hafter
    rw [List.cons_append, List.cons_append, List.append_assoc]
    refine spacedAngles_token trivial (stops_of_isFence rfl _) ?_
    exact ih (endsType_cons rfl (by decide))
      (spacedAngles_token trivial (stops_of_isFence rfl _) hafter)
  | array _ ih =>
    intro after hend hafter
    rw [List.append_assoc]
    refine ih (endsType_cons rfl (by decide)) ?_
    exact spacedAngles_token trivial (stops_of_isFence rfl _)
      (spacedAngles_token trivial (stops_of_isFence rfl _) hafter)
  | first _ ih =>
    intro after hend hafter
    exact ih hend hafter
  | union _ _ ih ih' =>
    intro after hend hafter
    rw [List.append_assoc, List.append_assoc]
    refine ih (endsType_cons rfl (by decide)) ⟨Or.inl trivial, ?_⟩
    refine spacedAngles_token trivial (stops_cons.2 (not_runsInto_space _)) ⟨Or.inl trivial, ?_⟩
    exact ih' hend hafter
  | last _ ih =>
    intro after hend hafter
    exact ih hend hafter
  | more _ _ ih ih' =>
    intro after hend hafter
    rw [List.append_assoc, List.append_assoc]
    refine ih (endsType_cons rfl (by decide)) ?_
    refine spacedAngles_token trivial (stops_of_isFence rfl _) ⟨Or.inl trivial, ?_⟩
    exact ih' hend hafter

end

/-! ## Tokens of an ascription -/

/-- The marks `ms` show the kinds `ks` and leave `rest`, if tokens `>>` are cut where a single `>`
is looked for. -/
inductive Shows : List Mark → List TokenKind → List Mark → Prop
  | nil {ms : List Mark} : Shows ms [] ms
  | cons {k : TokenKind} {b : Bool} {ms : List Mark} {ks : List TokenKind} {rest : List Mark}
      (h : Shows ms ks rest) : Shows ((k, b) :: ms) (k :: ks) rest
  | half {b : Bool} {ms : List Mark} {ks : List TokenKind} {rest : List Mark}
      (h : Shows ((.symbol .greater, b) :: ms) ks rest) :
      Shows ((.symbol .rightShift, b) :: ms) (.symbol .greater :: ks) rest

namespace Piece

theorem marks_of_plain {p : Piece} (hp : p.Plain) (b : Bool) (ps : List Piece) :
    (p = .space ∧ marks b (p :: ps) = marks b ps) ∨
      ∃ k, p = .token k ∧ marks b (p :: ps) = (k, b) :: marks false ps := by
  rcases hp with rfl | ⟨k, rfl, hk⟩
  · exact Or.inl ⟨rfl, rfl⟩
  · exact Or.inr ⟨k, rfl, marks_token hk b ps⟩

/-- The joined angles still show what they were made of. -/
theorem shows_joinAngles {ps : List Piece} (hps : ∀ p ∈ ps, p.Plain) (rest : List Mark) :
    ∀ b, Shows (marks b (joinAngles ps) ++ rest) (ps.flatMap kinds) rest := by
  fun_induction joinAngles ps with
  | case1 => exact fun _ => .nil
  | case2 p =>
    intro b
    rcases marks_of_plain (hps p List.mem_cons_self) b [] with ⟨rfl, h⟩ | ⟨k, rfl, h⟩
    · exact .nil
    · rw [h]
      exact .cons .nil
  | case3 p q ps hpq ih =>
    intro b
    obtain ⟨rfl, rfl⟩ := hpq
    rw [marks_symbol]
    refine .half (.cons (ih ?_ false))
    exact fun p hp => hps p (List.mem_cons_of_mem _ (List.mem_cons_of_mem _ hp))
  | case4 p q ps hpq ih =>
    intro b
    have ih := ih fun p hp => hps p (List.mem_cons_of_mem _ hp)
    rw [List.flatMap_cons]
    rcases marks_of_plain (hps p List.mem_cons_self) b (joinAngles (q :: ps)) with
      ⟨rfl, h⟩ | ⟨k, rfl, h⟩
    · rw [h]
      exact ih b
    · rw [h]
      exact .cons (ih false)

/-- A layout without line ends that has a token ends with one. -/
theorem settled_of_plain {ps : List Piece} (hps : ∀ p ∈ ps, p.Plain) {k : TokenKind}
    (hk : .token k ∈ ps) : Settled ps := by
  have hkeeps : ∀ {ps : List Piece}, (∀ p ∈ ps, p.Plain) → Unbroken ps := by
    intro ps hps
    induction ps with
    | nil => rfl
    | cons p ps ih =>
      have ih := ih fun p hp => hps p (List.mem_cons_of_mem _ hp)
      rcases hps p List.mem_cons_self with rfl | ⟨k, rfl, hk⟩
      · exact ih
      · simp only [Unbroken, List.flatMap_cons, kinds, List.cons_append, List.nil_append,
          TokenKind.breakAfter, hk]
        exact ih
  obtain ⟨qs, rs, rfl⟩ := List.append_of_mem hk
  refine Settled.append_left ?_ qs
  intro b
  rcases hps (.token k) hk with h | ⟨k', hk', htrivia⟩
  · cases h
  · cases hk'
    simp only [List.flatMap_cons, kinds, List.cons_append, List.nil_append, TokenKind.breakAfter,
      htrivia]
    exact hkeeps fun p hp => hps p (List.mem_append_right _ (List.mem_cons_of_mem _ hp))

theorem plain_joinAngles {ps : List Piece} (hps : ∀ p ∈ ps, p.Plain) :
    ∀ p ∈ joinAngles ps, p.Plain := by
  fun_induction joinAngles ps with
  | case1 | case2 => exact hps
  | case3 p q ps hpq ih =>
    refine List.forall_mem_cons.2 ⟨Or.inr ⟨_, rfl, rfl⟩, ih ?_⟩
    exact fun p hp => hps p (List.mem_cons_of_mem _ (List.mem_cons_of_mem _ hp))
  | case4 p q ps hpq ih =>
    refine List.forall_mem_cons.2 ⟨hps p List.mem_cons_self, ih ?_⟩
    exact fun p hp => hps p (List.mem_cons_of_mem _ hp)

theorem exists_token_mem_joinAngles (k : TokenKind) (ps : List Piece) :
    ∃ k', .token k' ∈ joinAngles (.token k :: ps) := by
  cases ps with
  | nil => exact ⟨k, List.mem_cons_self⟩
  | cons q ps =>
    unfold joinAngles
    split
    · exact ⟨_, List.mem_cons_self⟩
    · exact ⟨k, List.mem_cons_self⟩

end Piece

section

variable {level : TypeLevel} {ps : List Piece}

theorem TypePieces.spaced_joinAngles (h : TypePieces level ps) {rest : List Char}
    (hrest : Expression.MayFollow rest) :
    Spaced (Piece.joinAngles ps) rest := by
  refine Piece.spaced_joinAngles ?_
  have hspaced := @TypePieces.spacedAngles rest _ _ h [] (level.ends_of_mayFollow hrest) trivial
  rwa [List.append_nil] at hspaced

/-- The tokens of an ascription are those of its layout, closing angles joined. -/
theorem ascriptionKinds_render (h : TypePieces level ps) :
    ascriptionKinds (Piece.render ps) = (Piece.joinAngles ps).flatMap Piece.kinds := by
  have hlex := Piece.lexes_of_spaced (h.spaced_joinAngles (stops_nil _)) lexes_nil
  rw [List.append_nil, Piece.flatMap_chars_joinAngles,
    ← String.toList_ofList (l := ps.flatMap Piece.chars)] at hlex
  obtain ⟨ts, hts, hks⟩ := tokenize_of_lexes hlex ""
  unfold ascriptionKinds Piece.render
  rw [hts]
  simp only [hks, List.dropLast_concat]

/-- **An ascription keeps its tokens** before what may stand behind it. -/
theorem stands_ascription {text : String} (h : IsAscription text) {rest : List Char}
    (hrest : Expression.MayFollow rest) :
    (Piece.ascription text).Stands rest := by
  obtain ⟨ps, hps, rfl⟩ := h
  intro ks hks
  have hlex := Piece.lexes_of_spaced (hps.spaced_joinAngles hrest) hks
  rw [ascriptionKinds_render hps]
  unfold Piece.render
  rwa [String.toList_ofList, ← Piece.flatMap_chars_joinAngles]

theorem marks_ascription (h : TypePieces .union ps) (b : Bool) :
    Piece.marks b [.ascription (Piece.render ps)] = Piece.marks b (Piece.joinAngles ps) := by
  unfold Piece.marks
  rw [← ascriptionKinds_render h, List.flatMap_cons, List.flatMap_nil, List.append_nil]
  rfl

/-- An ascription ends with a token. -/
theorem settled_ascription {text : String} (h : IsAscription text) :
    Settled [.ascription text] := by
  obtain ⟨ps, hps, rfl⟩ := h
  obtain ⟨k, qs, hfirst, -⟩ := hps.exists_first
  obtain ⟨k', hk'⟩ := Piece.exists_token_mem_joinAngles k qs
  intro b
  rw [List.flatMap_cons, List.flatMap_nil, List.append_nil, Piece.kinds, ascriptionKinds_render hps]
  exact Piece.settled_of_plain (Piece.plain_joinAngles hps.plain_pieces) (hfirst ▸ hk') b

/-- **The marks of an ascription show its layout.** -/
theorem shows_ascription (h : TypePieces .union ps) (b : Bool) (rest : List Mark) :
    Shows (Piece.marks b [.ascription (Piece.render ps)] ++ rest) (ps.flatMap Piece.kinds)
      rest := by
  rw [marks_ascription h]
  exact Piece.shows_joinAngles h.plain_pieces rest b

end

end DecimalLift
