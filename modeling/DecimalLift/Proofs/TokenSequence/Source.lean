import DecimalLift.Proofs.Token.Stream
import DecimalLift.Proofs.TokenSequence.Declaration

/-!
# Reading and laying out a text keeps its tokens

* `ReadsStatement.core`, `ReadsFile.core` — the readers of statements keep the tokens.
* `Program.spelt` — what was read has the tokens of its layout, also where an operator stands
  behind another one of its kind.
* `coreOf_tokenize_render` — the tokens of a text and of the layout of its program are the same,
  line ends, comments, parentheses, braces, semicolons and commas apart.
-/

set_option autoImplicit false

namespace DecimalLift

open Piece (symbol keyword parenthesized)
open TokenKind (coreOf hasIdleImport)

/-! ## Layouts of statements -/

namespace Statement

variable {o : LayoutOptions}

theorem core_bodyLead (depth : Nat) (body : Statement) (ps : List Piece) :
    Piece.core (bodyLead o depth body :: ps) = Piece.core ps := by
  unfold bodyLead
  split <;> rfl

/-- Braces and line ends leave nothing. -/
theorem core_blockPieces (depth : Nat) (ss : List Statement) :
    Piece.core (blockPieces o depth ss) = Piece.core (linesPieces o (depth + 1) ss) := by
  cases ss with
  | nil =>
    rw [blockPieces, linesPieces]
    rfl
  | cons s ss =>
    rw [blockPieces]
    simp [LayoutOptions.line, TokenKind.core]

/-- An `else` part leaves its word and its statement, at whatever depth that stands. -/
theorem exists_core_elsePieces (depth : Nat) (afterBlock : Bool) (no : Statement) :
    ∃ depth', Piece.core (elsePieces o depth afterBlock (some no)) =
      .keyword .elseWord :: Piece.core (no.pieces o depth') := by
  rw [elsePieces]
  by_cases hbranch : no.isBranch = true
  · refine ⟨depth, ?_⟩
    rw [if_pos hbranch]
    cases afterBlock <;> rfl
  · refine ⟨bodyDepth depth no, ?_⟩
    rw [if_neg hbranch, Piece.core_append, core_bodyLead]
    cases afterBlock <;> rfl

theorem core_spacedPieces (e : Option Expression) :
    Piece.core (spacedPieces e) = e.toList.flatMap Expression.core := by
  cases e <;> simp [spacedPieces, Expression.core]

/-- A control statement leaves its word, its header and its body. -/
theorem core_controlled (k : Keyword) (header : List Piece) (depth : Nat) (body : Statement)
    (ps : List Piece) :
    Piece.core ([keyword k, .space] ++ parenthesized header ++ bodyLead o depth body :: ps) =
      .keyword k :: Piece.core header ++ Piece.core ps := by
  rw [Piece.core_append, core_bodyLead]
  simp

end Statement

/-! ## Statements -/

namespace Parse

open ParserState (Faithful)

variable {s s' : ParserState}

theorem ReadsBefore.core {close : Symbol} {e : Option Expression} (h : ReadsBefore close s e s') :
    s.core = e.toList.flatMap Expression.core ++ s'.core := by
  cases h with
  | none => rfl
  | some _ h => simpa using h.core_assignment

theorem ReadsReturned.core {e : Option Expression} (h : ReadsReturned s e s') :
    s.core = e.toList.flatMap Expression.core ++ s'.core := by
  cases h with
  | none => rfl
  | some _ h => simpa using h.core_assignment

theorem ReadsStart.core (width : UInt64) {start : Option Statement} (h : ReadsStart s start s')
    (hs : s.Spelt) :
    s.core = Piece.core (Statement.startPieces ⟨true, width⟩ start) ++ s'.core := by
  cases h with
  | none => rfl
  | declared h => exact h.core width hs
  | expression h => exact h.core_assignment

mutual

/-- **A layout writes a statement as it was read**, grouping apart. -/
theorem ReadsStatement.core (width : UInt64) {s s' : ParserState} {st : Statement} :
    ReadsStatement s st s' → s.Faithful →
      ∀ depth, s.core = Piece.core (st.pieces ⟨true, width⟩ depth) ++ s'.core
  | .imports h, hs, depth => by
    rw [h.core hs, Statement.pieces]
    rfl
  | .exports hexport h _, hs, depth => by
    rw [hexport.core, h.core width (hexport.leads.faithful hs) depth, Statement.pieces]
    simp
  | .declared h hend, hs, depth => by
    rw [h.core width hs.spelt, hend.core, Statement.pieces]
    simp [TokenKind.core]
  | .function hfunction hname hopen hparameters hclose hresult hbrace hbody hend, hs, depth => by
    have hs₁ := hfunction.leads.faithful hs
    have hs₃ := (hname.leads.trans hopen.leads).faithful hs₁
    have hs₅ := (hparameters.skips.leads.trans hclose.leads).faithful hs₃
    have hs₇ := (hresult.skips.leads.trans hbrace.leads).faithful hs₅
    rw [hfunction.core, hname.core, hopen.core, hparameters.core width hs₃.spelt, hclose.core,
      hresult.core width hs₅.spelt, hbrace.core, hbody.core width hs₇ (depth + 1), hend.core,
      Statement.pieces, Piece.core_append, Statement.core_blockPieces]
    simp [TokenKind.core, List.flatMap_map]
  | .returns hreturn h hend, _, depth => by
    rw [hreturn.core, h.core, hend.core, Statement.pieces]
    simp [Statement.core_spacedPieces, TokenKind.core]
  | .branch hif hopen hcondition hclose hyes _, hs, depth => by
    have hs₄ := (hif.leads.trans (hopen.leads.trans (hcondition.leads.trans
      hclose.leads))).faithful hs
    rename_i yes _
    rw [hif.core, hopen.core, hcondition.core_assignment, hclose.core,
      hyes.core width hs₄ (Statement.bodyDepth depth yes), Statement.pieces, Statement.elsePieces,
      List.append_nil, Statement.core_controlled]
    simp [TokenKind.core, Expression.core]
  | .branch_else hif hopen hcondition hclose hyes helse hno, hs, depth => by
    have hs₄ := (hif.leads.trans (hopen.leads.trans (hcondition.leads.trans
      hclose.leads))).faithful hs
    have hs₆ := (hyes.consumes.leads.trans helse.leads).faithful hs₄
    rename_i yes no
    obtain ⟨depth', helsePieces⟩ :=
      Statement.exists_core_elsePieces (o := ⟨true, width⟩) depth yes.isBlock no
    rw [hif.core, hopen.core, hcondition.core_assignment, hclose.core,
      hyes.core width hs₄ (Statement.bodyDepth depth yes), helse.core, hno.core width hs₆ depth',
      Statement.pieces, Piece.core_append, Statement.core_controlled, helsePieces]
    simp [TokenKind.core, Expression.core]
  | .whileLoop hwhile hopen hcondition hclose hbody, hs, depth => by
    have hs₄ := (hwhile.leads.trans (hopen.leads.trans (hcondition.leads.trans
      hclose.leads))).faithful hs
    rename_i body
    rw [hwhile.core, hopen.core, hcondition.core_assignment, hclose.core,
      hbody.core width hs₄ (Statement.bodyDepth depth body), Statement.pieces,
      Statement.core_controlled]
    simp [TokenKind.core, Expression.core]
  | .forLoop hfor hopen hstart hfirst hcondition hsecond hupdate hclose hbody, hs, depth => by
    have hs₂ := (hfor.leads.trans hopen.leads).faithful hs
    have hs₈ := (hstart.leads.trans (hfirst.leads.trans (hcondition.leads.trans
      (hsecond.leads.trans (hupdate.leads.trans hclose.leads))))).faithful hs₂
    rename_i body
    rw [hfor.core, hopen.core, hstart.core width hs₂.spelt, hfirst.core, hcondition.core,
      hsecond.core, hupdate.core, hclose.core,
      hbody.core width hs₈ (Statement.bodyDepth depth body), Statement.pieces,
      Statement.core_controlled]
    simp [TokenKind.core, Statement.core_spacedPieces]
  | .block hbrace hbody hend, hs, depth => by
    rw [hbrace.core, hbody.core width (hbrace.leads.faithful hs) (depth + 1), hend.core,
      Statement.pieces, Statement.core_blockPieces]
    rfl
  | .empty h, _, depth => by
    rw [h.core, Statement.pieces]
    rfl
  | .expression h hend, _, depth => by
    rw [h.core_assignment, hend.core, Statement.pieces]
    simp [TokenKind.core, Expression.core]

theorem ReadsBody.core (width : UInt64) {s s' : ParserState} {ss : List Statement} :
    ReadsBody s ss s' → s.Faithful →
      ∀ depth, s.core = Piece.core (Statement.linesPieces ⟨true, width⟩ depth ss) ++ s'.core
  | .close _, _, depth => by
    rw [Statement.linesPieces]
    rfl
  | .more h hrest, hs, depth => by
    rw [h.core width hs depth, hrest.core width (h.consumes.leads.faithful hs) depth,
      Statement.linesPieces]
    simp [LayoutOptions.line]

end

/-- The statements of a file, one layout behind another. -/
theorem ReadsFile.core (width : UInt64) {ss : List Statement} (h : ReadsFile s ss s') :
    s.Faithful →
      s.core = Piece.core (ss.flatMap fun st => st.pieces ⟨true, width⟩ 0 ++ [.line 0])
        ++ s'.core := by
  induction h with
  | stop => exact fun _ => rfl
  | more h _ ih =>
    intro hs
    rw [h.core width hs 0, ih (h.consumes.leads.faithful hs), List.flatMap_cons]
    simp

end Parse

/-! ## Programs -/

theorem Expression.AsRead.spelt {e : Expression} (h : e.AsRead) : e.Spelt := by
  cases e with
  | string =>
    obtain ⟨text, rfl, hspelt⟩ := h
    exact hspelt
  | number | identifier | member => exact h
  | _ => trivial

theorem Statement.AsRead.spelt {s : Statement} (h : s.AsRead) : s.Spelt := by
  cases s with
  | imports => exact ⟨h.1, fun _ h => nomatch h⟩
  | _ => exact ⟨h.1, fun e he => (h.2 e he).mono fun _ => Expression.AsRead.spelt⟩

/-- A program that was read has the tokens of its layout. -/
theorem Program.spelt {source file : String} {p : Program}
    (h : Program.parse source file = .ok p) : Statement.AllOf Statement.Spelt p.statements :=
  (Program.asRead h).mono fun _ => Statement.AsRead.spelt

/-- At the end of file nothing is left before the end of file. -/
theorem ParserState.takeWhile_core {s : ParserState} (h : s.isAt .endOfFile = true) :
    s.core.takeWhile (· ≠ .endOfFile) = [] := by
  unfold ParserState.isAt at h
  unfold ParserState.core ParserState.kinds
  cases hs : s.tokens with
  | nil => rfl
  | cons t ts =>
    rw [hs] at h
    have hkind : t.kind = .endOfFile := of_decide_eq_true h
    rw [List.map_cons, hkind]
    rfl

/-- What stands before the first end of file is the same in equal lists. -/
theorem eq_of_append_eq {ks ls rest rest' : List TokenKind} (hks : .endOfFile ∉ ks)
    (hls : .endOfFile ∉ ls) (hrest : rest.takeWhile (· ≠ .endOfFile) = [])
    (hrest' : rest'.takeWhile (· ≠ .endOfFile) = []) (h : ks ++ rest = ls ++ rest') : ks = ls := by
  have hbefore : ∀ {ks rest : List TokenKind}, .endOfFile ∉ ks →
      rest.takeWhile (· ≠ .endOfFile) = [] → (ks ++ rest).takeWhile (· ≠ .endOfFile) = ks := by
    intro ks rest hks hrest
    rw [List.takeWhile_append_of_pos, hrest, List.append_nil]
    intro k hk
    exact decide_eq_true fun heq => hks (heq ▸ hk)
  rw [← hbefore hks hrest, h, hbefore hls hrest']

/-- **Reading a text and laying out its program keeps the tokens.** Line ends, comments,
parentheses, braces, semicolons and commas apart, and a token `>>` taken as two closing angles, the
layout has the tokens of the text in their order, each with its name, spelling, value and quote,
whatever the width of the indentation. Only an import of an empty list and a new name for a name
that has it already are not written. -/
theorem coreOf_tokenize_render {source file : String} {p : Program} {ts : List Token}
    (h : Program.parse source file = .ok p) (hts : tokenize source file = .ok ts)
    (hshown : hasIdleImport ((ts.map (·.kind)).filter (·.trivia?.isNone)) = false)
    (width : UInt64) (file' : String) :
    ∃ us, tokenize (p.render ⟨true, width⟩) file' = .ok us ∧
      coreOf (us.map (·.kind)) = coreOf (ts.map (·.kind)) := by
  obtain ⟨us, hus, hkinds⟩ :=
    Piece.exists_tokenize_kinds (Program.spaced (o := ⟨true, width⟩) (Program.spelt h)) file'
  obtain ⟨_, ss, s', hts', hread, rfl⟩ := Program.parse_eq_ok.1 h
  obtain rfl := Except.ok.inj (hts.symm.trans hts')
  have hfaithful : (ParserState.ofTokens ts file).Faithful :=
    ⟨spelt_ofTokens hts, by rwa [kinds_ofTokens]⟩
  have hcore := hread.core width hfaithful
  rw [core_ofTokens] at hcore
  -- both texts end with their only end of file, so the cores are the same before it
  obtain ⟨ks, hks, hmem⟩ := exists_of_tokenize hts
  obtain ⟨ls, hls, hmem'⟩ := exists_of_tokenize hus
  obtain rfl := List.append_cancel_right (hls.symm.trans hkinds)
  rw [hks, TokenKind.coreOf_append] at hcore
  have hbefore := eq_of_append_eq (mt TokenKind.endOfFile_mem_coreOf hmem)
    (mt TokenKind.endOfFile_mem_coreOf hmem') rfl (ParserState.takeWhile_core hread.isAt) hcore
  refine ⟨us, hus, ?_⟩
  rw [hkinds, hks, TokenKind.coreOf_append, TokenKind.coreOf_append, hbefore]

/-- A program that is written with other parentheses, semicolons, commas and line ends, one operator
behind another one of its kind, and halves of `>>`. -/
def Program.ragged : String :=
  "import d, \x7ba as b, c,\x7d from 'm' // names\nlet x: A<B<C> > = new (f().g), y\n" ++
    "((y++)++)\nif (x) for (;;) \x7by = (1).k >> 2\x7d else return 'it\\'s'"

theorem coreOf_tokenize_render_ragged :
    ∃ p ts, Program.parse Program.ragged "m.ts" = .ok p ∧
      tokenize Program.ragged "m.ts" = .ok ts ∧
      hasIdleImport ((ts.map (·.kind)).filter (·.trivia?.isNone)) = false ∧
      ∃ us, tokenize (p.render ⟨true, 4⟩) "m.ts" = .ok us ∧
        coreOf (us.map (·.kind)) = coreOf (ts.map (·.kind)) := by
  have hparse : (Program.parse Program.ragged "m.ts").toOption.isSome = true := by decide +kernel
  have htokens : (tokenize Program.ragged "m.ts").toOption.any (fun ts =>
      !hasIdleImport ((ts.map (·.kind)).filter (·.trivia?.isNone))) = true := by
    decide +kernel
  cases hp : Program.parse Program.ragged "m.ts" with
  | error e =>
    rw [hp] at hparse
    cases hparse
  | ok p =>
    cases hts : tokenize Program.ragged "m.ts" with
    | error e =>
      rw [hts] at htokens
      cases htokens
    | ok ts =>
      rw [hts] at htokens
      have hshown : hasIdleImport ((ts.map (·.kind)).filter (·.trivia?.isNone)) = false :=
        (Bool.not_eq_true' _).mp htokens
      exact ⟨p, ts, rfl, rfl, hshown, coreOf_tokenize_render hp hts hshown 4 "m.ts"⟩

end DecimalLift
