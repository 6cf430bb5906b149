import DecimalLift.Proofs.TokenSequence.Reading

/-!
# Closing angles

A list of type arguments is closed by a token `>` or by one half of a token `>>`, and the text that
is kept of an ascription joins its closing angles anew, so that they may meet in other pairs than in
the source. It is the same ascription all the same, however deep the lists are nested.

* `TokenKind.angles`, `AnglesMatch` — a count of the lists that are open: every closing angle closes
  one, and none is left open.
* `TypePieces.angles_core` — the angles of a layout match, level by level.
* `ReadsItself` — a text that is read back from its own tokens, and `IsAscription.readsItself`.
* `nestedType` — an ascription inside any number of lists of type arguments.
* `ascription_stable` — whatever is read as an ascription reads itself.
-/

set_option autoImplicit false

namespace DecimalLift

open TokenKind (coreOf)
open Piece (symbol)

/-! ## Matching angles -/

namespace TokenKind

/-- How many lists of type arguments are open behind a token, when `depth` are open before it. A
closing angle needs one that it can close, and a token `>>` needs two. -/
def angles (depth : Nat) : TokenKind → Option Nat
  | .symbol .less => some (depth + 1)
  | .symbol .greater => if 1 ≤ depth then some (depth - 1) else none
  | .symbol .rightShift => if 2 ≤ depth then some (depth - 2) else none
  | _ => some depth

theorem angles_core (k : TokenKind) (depth : Nat) :
    k.core.foldlM angles depth = k.angles depth := by
  cases k with
  | symbol y =>
    cases y with
    | rightShift => obtain _ | _ | depth := depth <;> rfl
    | greater => cases depth <;> rfl
    | _ => rfl
  | _ => rfl

/-- Two halves of a token `>>` close what the token closes, and what is put aside closes nothing. -/
theorem angles_coreOf (ks : List TokenKind) (depth : Nat) :
    (coreOf ks).foldlM angles depth = ks.foldlM angles depth := by
  induction ks generalizing depth with
  | nil => rfl
  | cons k ks ih =>
    rw [coreOf_cons, List.foldlM_append, angles_core, List.foldlM_cons]
    exact congrArg _ (funext ih)

theorem angles_append {ks ls : List TokenKind} {depth depth' : Nat}
    (h : ks.foldlM angles depth = some depth') :
    (ks ++ ls).foldlM angles depth = ls.foldlM angles depth' := by
  rw [List.foldlM_append, h]
  rfl

end TokenKind

/-- Every closing angle closes a list of type arguments that was opened before it, and none of these
is left open. -/
def AnglesMatch (ks : List TokenKind) : Prop := ks.foldlM TokenKind.angles 0 = some 0

/-- The angles of a layout leave open what was open before. -/
theorem TypePieces.angles_core {level : TypeLevel} {ps : List Piece} (h : TypePieces level ps)
    (depth : Nat) : (Piece.core ps).foldlM TokenKind.angles depth = some depth := by
  induction h generalizing depth with
  | name | null | string | number => rfl
  | plain _ ih | first _ ih | last _ ih => exact ih depth
  | member _ _ ih | array _ ih =>
    rw [Piece.core_append, TokenKind.angles_append (ih depth)]
    rfl
  | @generic ps qs _ _ ih ih' =>
    have hcore : Piece.core (ps ++ symbol .less :: qs ++ [symbol .greater]) =
        Piece.core ps ++ ([.symbol .less] ++ (Piece.core qs ++ [.symbol .greater])) := by
      simp [TokenKind.core]
    have hopen : [TokenKind.symbol .less].foldlM TokenKind.angles depth = some (depth + 1) := rfl
    rw [hcore, TokenKind.angles_append (ih depth), TokenKind.angles_append hopen,
      TokenKind.angles_append (ih' (depth + 1))]
    rfl
  | @group ps _ ih =>
    have hcore : Piece.core (symbol .leftParen :: ps ++ [symbol .rightParen]) = Piece.core ps := by
      simp [TokenKind.core]
    rw [hcore]
    exact ih depth
  | union _ _ ih ih' | more _ _ ih ih' =>
    rw [Piece.core_append, Piece.core_append, List.append_assoc, TokenKind.angles_append (ih depth)]
    exact ih' depth

theorem IsAscription.anglesMatch {text : String} (h : IsAscription text) :
    AnglesMatch (coreOf (ascriptionKinds text)) := by
  obtain ⟨ps, hps, rfl⟩ := h
  rw [hps.core_render]
  exact hps.angles_core 0

/-! ## Reading back -/

/-- The text is split into tokens with matching angles, and what is read from them as an ascription
is the text, with only the end of file left. -/
def ReadsItself (text file : String) : Prop :=
  ∃ ts s', tokenize text file = .ok ts ∧ AnglesMatch (ts.map (·.kind)) ∧
    Parse.ascription (.ofTokens ts file) = .ok text s' ∧ s'.kinds = [.endOfFile]

/-- **The text of an ascription reads itself.** -/
theorem IsAscription.readsItself {text : String} (h : IsAscription text) (file : String) :
    ReadsItself text file := by
  have hspaced : Piece.Spaced [.ascription text] [] :=
    ⟨stands_ascription h (stops_nil _), trivial⟩
  obtain ⟨ts, broken, hts, hmarks⟩ := Piece.exists_tokenize_render hspaced file
  have htext : Piece.render [.ascription text] = text := by
    simp [Piece.render, Piece.chars]
  rw [htext] at hts
  obtain ⟨s', hread, hs'⟩ := Parse.readsType_of_marks h hmarks (notAt_cons.2 rfl)
  have hkinds : s'.kinds = [.endOfFile] := ParserState.kinds_of_marks hs'
  refine ⟨ts, s', hts, ?_, Parse.ascription_eq_ok.2 hread, hkinds⟩
  have hcore := hread.core_union (spelt_ofTokens hts)
  rw [core_ofTokens, ParserState.core, hkinds] at hcore
  unfold AnglesMatch
  rw [← TokenKind.angles_coreOf, hcore, TokenKind.angles_append h.anglesMatch]
  rfl

/-- An ascription as the argument of a type, `depth` times over. -/
def nestedType (name : String) : Nat → String → String
  | 0, text => text
  | depth + 1, text => name ++ "<" ++ nestedType name depth text ++ ">"

theorem IsAscription.nestedType {name text : String} (hname : (TokenKind.identifier name).Spelt)
    (h : IsAscription text) (depth : Nat) : IsAscription (nestedType name depth text) := by
  induction depth with
  | zero => exact h
  | succ depth ih =>
    obtain ⟨ps, hps, hrender⟩ := ih
    refine ⟨_, .first (.generic (.name hname) (.last hps)), ?_⟩
    rw [Piece.render_generic, Piece.render_name, ← hrender]
    rfl

/-- **Ascriptions are stable.** Whatever is read as an ascription, from any place in the tokens of a
text: the angles that are taken match, with each half of `>>` for one; and the text that is returned
reads itself, alone and inside lists of type arguments of any depth. -/
theorem ascription_stable {source file text : String} {ts : List Token} {s s' : ParserState}
    (htokens : tokenize source file = .ok ts) (hplace : (ParserState.ofTokens ts file).Leads s)
    (hread : Parse.ascription s = .ok text s') :
    (∃ taken, s.core = taken ++ s'.core ∧ AnglesMatch taken) ∧
      (∀ file', ReadsItself text file') ∧
      ∀ name depth file', (TokenKind.identifier name).Spelt →
        ReadsItself (nestedType name depth text) file' := by
  have hreads := Parse.ascription_eq_ok.1 hread
  have hspelt : s.Spelt := hplace.spelt (spelt_ofTokens htokens)
  have htext : IsAscription text := hreads.isTypeText hspelt trivial
  refine ⟨⟨_, hreads.core_union hspelt, htext.anglesMatch⟩, htext.readsItself, ?_⟩
  intro name depth file' hname
  exact (htext.nestedType hname depth).readsItself file'

/-- Four lists of type arguments that are closed by `>`, `>>` and `>`. In the text that is kept, two
tokens `>>` close them. -/
def Parse.nestedSample : String := "A<B<C<D<E> >>>[]|F = 1"

theorem ascription_stable_nestedSample :
    ∃ ts s', tokenize Parse.nestedSample "m.ts" = .ok ts ∧
      Parse.ascription (.ofTokens ts "m.ts") = .ok "A<B<C<D<E>>>>[] | F" s' ∧
      (∃ taken, (ParserState.ofTokens ts "m.ts").core = taken ++ s'.core ∧ AnglesMatch taken) ∧
      ReadsItself "A<B<C<D<E>>>>[] | F" "n.ts" ∧
      ReadsItself (nestedType "G" 9 "A<B<C<D<E>>>>[] | F") "n.ts" := by
  have h : (tokenize Parse.nestedSample "m.ts").toOption.any (fun ts =>
      (Parse.value Parse.ascription (.ofTokens ts "m.ts")).toOption ==
        some "A<B<C<D<E>>>>[] | F") = true := by
    decide +kernel
  cases hts : tokenize Parse.nestedSample "m.ts" with
  | error e =>
    rw [hts] at h
    cases h
  | ok ts =>
    rw [hts] at h
    have hvalue := eq_of_beq h
    unfold Parse.value at hvalue
    cases hread : Parse.ascription (.ofTokens ts "m.ts") with
    | error e s' =>
      rw [hread] at hvalue
      cases hvalue
    | ok text s' =>
      rw [hread] at hvalue
      obtain rfl : text = _ := Option.some.inj hvalue
      obtain ⟨hangles, hself, hnested⟩ := ascription_stable hts .refl hread
      exact ⟨ts, s', rfl, hread, hangles, hself "n.ts", hnested "G" 9 "n.ts" ⟨rfl, rfl⟩⟩

end DecimalLift
